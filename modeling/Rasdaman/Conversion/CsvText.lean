import Rasdaman.Conversion.CsvReading
import Rasdaman.Machinery.ExceptFold

/-!
# Conversion/CsvText — the texts that the encoder writes

The text of an array spells the values of its cells, in the order in which they are in memory
(`text_ok`).  An array whose cells are structures with a structure in them has no text: for the inner
structure the encoder writes the outer one again.
-/

namespace Rasdaman

open Bytes Tokens

namespace Csv

variable {o : Order} {t : IntegerId} {type : CellType} {attributes : CellAttributes} {fuel : ℕ}
  {val : List UInt8} {ks ls : List Field}

/-! ## The values in memory -/

/-- The values of fields in memory. -/
def readValues (o : Order) : List Field → List UInt8 → List ℤ
  | [], _ => []
  | k :: ks, val =>
    k.typeId.get o (val.take k.typeId.size) :: readValues o ks (val.drop k.typeId.size)

/-- The memory that fields take. -/
def fieldsSize (ks : List Field) : ℕ := (ks.map fun k => k.typeId.size).sum

@[simp] theorem fieldsSize_cons {k : Field} : fieldsSize (k :: ks) = k.typeId.size + fieldsSize ks := rfl

@[simp] theorem fieldsSize_append : fieldsSize (ks ++ ls) = fieldsSize ks + fieldsSize ls := by
  rw [fieldsSize, List.map_append, List.sum_append, fieldsSize, fieldsSize]

mutual

theorem CellType.fieldsSize_attributeFields : ∀ type : CellType,
    fieldsSize type.attributeFields = type.size
  | .primitive t => rfl
  | .struct attributes => by
    rw [CellType.attributeFields, CellType.size, attributes.fieldsSize_fields]

theorem CellAttributes.fieldsSize_fields : ∀ attributes : CellAttributes,
    fieldsSize attributes.fields = attributes.size
  | .last type => by
    rw [CellAttributes.fields, CellAttributes.size, type.fieldsSize_attributeFields]
  | .cons type rest => by
    rw [CellAttributes.fields, CellAttributes.size, fieldsSize_append,
      type.fieldsSize_attributeFields, rest.fieldsSize_fields]

end

theorem CellType.fieldsSize_fields (type : CellType) : fieldsSize type.fields = type.size := by
  cases type with
  | primitive t => rfl
  | struct attributes => rw [fields, size, attributes.fieldsSize_fields]

/-- The fields of many cells. -/
theorem fieldsSize_replicate (n : ℕ) : fieldsSize (List.replicate n ks).flatten = n * fieldsSize ks := by
  induction n with
  | zero => rw [Nat.zero_mul]; rfl
  | succ n ih =>
    rw [List.replicate_succ, List.flatten_cons, fieldsSize_append, ih, Nat.succ_mul, Nat.add_comm]

theorem CellType.size_pos (type : CellType) : 0 < type.size := by
  obtain ⟨k, ks, hks⟩ := List.exists_cons_of_ne_nil type.fields_ne_nil
  rw [← type.fieldsSize_fields, hks, fieldsSize_cons]
  exact Nat.add_pos_left k.typeId.size_pos _

/-- The number of cells of an array with room is not cut off. -/
theorem FixedDomain.numElem_eq {D : FixedDomain} {type : CellType}
    (h : D.dims.prod * type.size < 2 ^ 32) : D.numElem = D.dims.prod :=
  Nat.mod_eq_of_lt ((Nat.le_mul_of_pos_right _ type.size_pos).trans_lt h)

theorem readValues_append : readValues o (ks ++ ls) val =
    readValues o ks val ++ readValues o ls (val.drop (fieldsSize ks)) := by
  induction ks generalizing val with
  | nil => rfl
  | cons k ks ih =>
    rw [List.cons_append, readValues, readValues, ih, List.drop_drop, List.cons_append,
      fieldsSize_cons]

/-- Only the memory that the fields take is read. -/
theorem readValues_take : readValues o ks (val.take (fieldsSize ks)) = readValues o ks val := by
  induction ks generalizing val with
  | nil => rfl
  | cons k ks ih =>
    have hdrop : (val.take (fieldsSize (k :: ks))).drop k.typeId.size =
        (val.drop k.typeId.size).take (fieldsSize ks) := by
      rw [List.drop_take, fieldsSize_cons, Nat.add_sub_cancel_left]
    rw [readValues, readValues, hdrop, ih, List.take_take, fieldsSize_cons,
      Nat.min_eq_left (Nat.le_add_right _ _)]

/-! ## Cells -/

/-- An integer. -/
def CellType.isPrimitive : CellType → Bool
  | .primitive _ => true
  | .struct _ => false

/-- All attributes are integers. -/
def CellAttributes.flat : CellAttributes → Bool
  | .last type => type.isPrimitive
  | .cons type rest => type.isPrimitive && rest.flat

/-- There is no structure inside of a structure. -/
def CellType.flat : CellType → Bool
  | .primitive _ => true
  | .struct attributes => attributes.flat

/-- The number of attributes. -/
def CellAttributes.length : CellAttributes → ℕ
  | .last _ => 1
  | .cons _ rest => rest.length + 1

/-- The open calls for a value. -/
def CellType.calls : CellType → ℕ
  | .primitive _ => 1
  | .struct attributes => attributes.length + 3

/-- The text of the values of a structure. -/
def valuesText (vs : List ℤ) : List Char := [' '].intercalate (vs.map Decimal.text)

/-- The text of a cell with given values. -/
def CellType.text : CellType → List ℤ → List Char
  | .primitive _, vs => valuesText vs
  | .struct _, vs => '"' :: (valuesText vs ++ ['"'])

theorem valuesText_singleton {v : ℤ} : valuesText [v] = Decimal.text v :=
  List.intercalate_singleton

theorem valuesText_cons {v : ℤ} {vs : List ℤ} (h : vs ≠ []) :
    valuesText (v :: vs) = Decimal.text v ++ ' ' :: valuesText vs := by
  rw [valuesText, List.map_cons, List.intercalate_cons_of_ne_nil (by simpa using h), List.append_assoc]
  rfl

theorem readValues_ne_nil (h : ks ≠ []) : readValues o ks val ≠ [] := by
  obtain ⟨k, ks, rfl⟩ := List.exists_cons_of_ne_nil h
  exact List.cons_ne_nil _ _

/-- The attributes of a structure of integers are written one after another. -/
theorem printAttributes_flat {srcType : CellType} : ∀ {attributes : CellAttributes} (fuel : ℕ)
    (val : List UInt8), attributes.flat = true →
    printAttributes o srcType fuel attributes val =
      if attributes.length < fuel then
        .ok (valuesText (readValues o attributes.fields val), val.drop attributes.size)
      else .error .endless
  | attributes, 0, val, _ => by rw [printAttributes, if_neg (Nat.not_lt_zero _)]
  | .last (.primitive t), 1, val, _ => rfl
  | .last (.primitive t), fuel + 2, val, _ => by
    rw [printAttributes, printValue, if_pos (by rw [CellAttributes.length]; omega)]
    exact congrArg Except.ok (Prod.ext valuesText_singleton.symm rfl)
  | .cons (.primitive t) rest, 1, val, _ => rfl
  | .cons (.primitive t) rest, fuel + 2, val, h => by
    have hne : readValues o rest.fields (val.drop t.size) ≠ [] := readValues_ne_nil rest.fields_ne_nil
    have hrest : rest.flat = true := h
    rw [printAttributes, printValue]
    simp only [bind, Except.bind, printPrimitiveValue, pure, Except.pure]
    rw [printAttributes_flat (fuel + 1) (val.drop t.size) hrest]
    by_cases hfuel : rest.length < fuel + 1
    · rw [if_pos hfuel, if_pos (by rw [CellAttributes.length]; omega)]
      refine congrArg Except.ok (Prod.ext (valuesText_cons hne).symm ?_)
      exact List.drop_drop
    · rw [if_neg hfuel, if_neg (by rw [CellAttributes.length]; omega)]

/-- A cell that is no structure with a structure in it is written, with enough room for calls. -/
theorem printValue_flat (h : type.flat = true) :
    printValue o type fuel type val =
      if type.calls ≤ fuel then .ok (type.text (readValues o type.fields val), val.drop type.size)
      else .error .endless := by
  cases type with
  | primitive t =>
    cases fuel with
    | zero => rfl
    | succ fuel =>
      rw [printValue, CellType.calls, if_pos (Nat.le_add_left 1 fuel)]
      exact congrArg Except.ok (Prod.ext valuesText_singleton.symm rfl)
  | struct attributes =>
    rcases fuel with - | - | fuel
    · rfl
    · rfl
    · rw [printValue, printStructValue, printAttributes_flat fuel val h]
      by_cases hfuel : attributes.length < fuel
      · rw [if_pos hfuel, if_pos (by rw [CellType.calls]; omega)]
        rfl
      · rw [if_neg hfuel, if_neg (by rw [CellType.calls]; omega)]
        rfl

/-- An attribute that is a structure is not written, where structures are not. -/
theorem printAttributes_nested {srcType : CellType} : ∀ {attributes : CellAttributes} (fuel : ℕ)
    (val : List UInt8), (∀ fuel' < fuel, ∀ val, printStructValue o srcType fuel' val = .error .endless) →
    attributes.flat = false → printAttributes o srcType fuel attributes val = .error .endless
  | attributes, 0, val, _, _ => by rw [printAttributes]
  | .last (.struct _), 1, val, _, _ => rfl
  | .last (.struct _), fuel + 2, val, hstruct, _ => hstruct fuel (by omega) val
  | .cons (.struct _) rest, 1, val, _, _ => rfl
  | .cons (.struct _) rest, fuel + 2, val, hstruct, _ => by
    rw [printAttributes, printValue, hstruct fuel (by omega) val]
    rfl
  | .cons (.primitive t) rest, 1, val, _, _ => rfl
  | .cons (.primitive t) rest, fuel + 2, val, hstruct, h => by
    have hrest : rest.flat = false := h
    rw [printAttributes, printValue]
    simp only [bind, Except.bind, printPrimitiveValue]
    rw [printAttributes_nested (fuel + 1) (val.drop t.size)
      (fun fuel' hfuel' => hstruct fuel' (by omega)) hrest]

/-- **A structure with a structure in it is written without end**: the outer one is written for the inner. -/
theorem printValue_nested (h : type.flat = false) :
    printValue o type fuel type val = .error .endless := by
  cases type with
  | primitive t => exact absurd h (by simp [CellType.flat])
  | struct attributes =>
    have hstruct : ∀ fuel val,
        printStructValue o (.struct attributes) fuel val = .error .endless := by
      intro fuel
      induction fuel using Nat.strong_induction_on with
      | _ fuel ih =>
        intro val
        cases fuel with
        | zero => rw [printStructValue]
        | succ fuel =>
          rw [printStructValue, printAttributes_nested fuel val (fun f hf => ih f (by omega)) h]
          rfl
    cases fuel with
    | zero => rw [printValue]
    | succ fuel => rw [printValue, hstruct]

/-- The text of a cell: only the memory of the cell matters. -/
theorem printValue_take : (printValue o type fuel type (val.take type.size)).map Prod.fst =
    (printValue o type fuel type val).map Prod.fst := by
  cases h : type.flat with
  | false => rw [printValue_nested h, printValue_nested h]
  | true =>
    rw [printValue_flat h, printValue_flat h, ← type.fieldsSize_fields, readValues_take]
    split <;> rfl

theorem writes_valuesText {vs : List ℤ} :
    Writes isValidCharacter (vs.map Decimal.text) (valuesText vs) := by
  have hparts : List.Forall₂ (Writes isValidCharacter) (vs.map fun v => [Decimal.text v])
      (vs.map Decimal.text) := by
    rw [List.forall₂_map_left_iff, List.forall₂_map_right_iff]
    exact List.forall₂_same.mpr fun v _ => .token (token_text v)
  have hflat : (vs.map fun v => [Decimal.text v]).flatten = vs.map Decimal.text := by
    induction vs with
    | nil => rfl
    | cons v vs ih => exact congrArg (Decimal.text v :: ·) (ih (List.forall₂_cons.mp hparts).2)
  exact hflat ▸ Writes.intercalate hparts (by decide)

/-- The text of a cell spells its values. -/
theorem writes_text {vs : List ℤ} :
    Writes isValidCharacter (vs.map Decimal.text) (type.text vs) := by
  cases type with
  | primitive t => exact writes_valuesText
  | struct attributes =>
    have hmark : Marks isValidCharacter ['"'] := by
      intro c hc
      rw [List.mem_singleton.mp hc]
      decide
    exact writes_valuesText.wrap hmark hmark

/-! ## Arrays -/

/-- `printArray` for cells with given texts; `c` is the number of the first cell. -/
def layout (F : Format) (f : ℕ → Except Halt (List Char)) :
    (dims offsets : List ℕ) → (c : ℕ) → Except Halt (List Char)
  | n :: dims, offset :: offsets, c => do
    let parts ← (List.range n).mapM fun i => do
      if dims = [] then f (c + i * offset)
      else
        let f ← layout F f dims offsets (c + i * offset)
        return F.leftParen :: (f ++ [F.rightParen])
    return [','].intercalate parts
  | _, _, _ => return []

/-- The text of a cell of an array. -/
def cellText (o : Order) (type : CellType) (fuel : ℕ) (src : List UInt8) (c : ℕ) :
    Except Halt (List Char) :=
  (printValue o type fuel type (RowMajor.cell type.size src c)).map Prod.fst

variable {F : Format} {src : List UInt8} {dims offs offs' : List ℕ} {c c' : ℕ}
  {f f' : ℕ → Except Halt (List Char)}

/-- `printArray` writes cell by cell. -/
theorem printArray_eq : printArray o F fuel type src dims offs (c * type.size) =
    layout F (cellText o type fuel src) dims offs c := by
  induction dims generalizing offs c with
  | nil => rfl
  | cons n dims ih =>
    cases offs with
    | nil => rfl
    | cons offset offs =>
      rw [printArray, layout]
      congr 2
      funext i
      have hptr : c * type.size + i * (offset * type.size) = (c + i * offset) * type.size := by
        rw [Nat.add_mul, Nat.mul_assoc]
      simp only [hptr, ih]
      refine if_congr Iff.rfl ?_ rfl
      rw [cellText, RowMajor.cell, printValue_take]
      rfl

/-- `printArray` from the first cell on. -/
theorem printArray_start : printArray o F fuel type src dims offs 0 =
    layout F (cellText o type fuel src) dims offs 0 := by
  rw [← printArray_eq, Nat.zero_mul]

theorem layout_cons {n offset : ℕ} : layout F f (n :: dims) (offset :: offs) c = (do
    let parts ← (List.range n).mapM fun i => do
      if dims = [] then f (c + i * offset)
      else
        let f ← layout F f dims offs (c + i * offset)
        return F.leftParen :: (f ++ [F.rightParen])
    return [','].intercalate parts) := by
  rw [layout]

/-- The number of the cell at a position, from the cell where the array starts. -/
def cellAt (offs xs : List ℕ) : ℕ := (List.zipWith (fun x offset => x * offset) xs offs).sum

theorem cellAt_cons {offset x : ℕ} {xs : List ℕ} :
    cellAt (offset :: offs) (x :: xs) = x * offset + cellAt offs xs := rfl

/-- Two arrays have one text if they have the same cells at all positions. -/
theorem layout_congr (hoffs : offs.length = dims.length) (hoffs' : offs'.length = dims.length)
    (hne : dims ≠ [])
    (h : ∀ xs, List.Forall₂ (· < ·) xs dims → f (c + cellAt offs xs) = f' (c' + cellAt offs' xs)) :
    layout F f dims offs c = layout F f' dims offs' c' := by
  induction dims generalizing offs offs' c c' with
  | nil => exact absurd rfl hne
  | cons n dims ih =>
    obtain ⟨offset, offs, rfl⟩ := List.exists_cons_of_length_eq_add_one hoffs
    obtain ⟨offset', offs', rfl⟩ := List.exists_cons_of_length_eq_add_one hoffs'
    rw [layout_cons, layout_cons]
    refine congrArg (· >>= _) (ExceptFold.mapM_congr fun i hi => ?_)
    have hin := List.mem_range.mp hi
    split
    · next hdims =>
      subst hdims
      exact h [i] (.cons hin .nil)
    · next hdims =>
      have hinner : layout F f dims offs (c + i * offset) = layout F f' dims offs' (c' + i * offset') :=
        ih (by simpa using hoffs) (by simpa using hoffs') hdims fun xs hxs => by
          have hcell := h (i :: xs) (.cons hin hxs)
          rw [cellAt_cons, cellAt_cons, ← Nat.add_assoc, ← Nat.add_assoc] at hcell
          exact hcell
      rw [hinner]

/-- The offsets of a dimension and of those inside of it. -/
theorem offsets_cons {n : ℕ} : offsets (n :: dims) = dims.prod :: offsets dims := by
  induction dims generalizing n with
  | nil => rfl
  | cons n' dims ih =>
    rw [offsets, ih, List.prod_cons, Nat.mul_comm]

theorem length_offsets : (offsets dims).length = dims.length := by
  induction dims with
  | nil => rfl
  | cons n dims ih => rw [offsets_cons, List.length_cons, List.length_cons, ih]

/-- With these offsets the cells are numbered in row-major order. -/
theorem cellAt_offsets {xs : List ℕ} (h : xs.length = dims.length) :
    cellAt (offsets dims) xs = RowMajor.offset dims xs := by
  induction dims generalizing xs with
  | nil =>
    obtain rfl := List.length_eq_zero_iff.mp h
    rfl
  | cons n dims ih =>
    obtain ⟨x, xs, rfl⟩ := List.exists_cons_of_length_eq_add_one h
    rw [offsets_cons, RowMajor.offset, ← ih (by simpa using h)]
    rfl

/-- Parentheses and commas are no part of a value. -/
structure Format.Ok (F : Format) : Prop where
  leftParen : isValidCharacter F.leftParen = false
  rightParen : isValidCharacter F.rightParen = false

theorem csv_ok : csv.Ok := ⟨by decide, by decide⟩

theorem json_ok : json.Ok := ⟨by decide, by decide⟩

theorem format_ok {F : Format} (h : F ∈ [csv, json]) : F.Ok := by
  rcases List.mem_pair.mp h with rfl | rfl
  · exact csv_ok
  · exact json_ok

/-- A text in parentheses spells what the text spells. -/
theorem Format.Ok.writes {ts : List (List Char)} {text : List Char} (hF : F.Ok)
    (h : Writes isValidCharacter ts text) :
    Writes isValidCharacter ts (F.leftParen :: (text ++ [F.rightParen])) :=
  h.wrap (p := [F.leftParen]) (fun _ hc => List.mem_singleton.mp hc ▸ hF.leftParen)
    (fun _ hc => List.mem_singleton.mp hc ▸ hF.rightParen)

/-- Equal runs of numbers, one after another. -/
theorem flatMap_range' (n p c : ℕ) :
    ((List.range n).flatMap fun i => List.range' (c + i * p) p) = List.range' c (n * p) := by
  induction n with
  | zero => rw [Nat.zero_mul]; rfl
  | succ n ih =>
    rw [List.range_succ, List.flatMap_append, ih, List.flatMap_singleton, Nat.succ_mul,
      List.range'_append_1]

/-- **The text of an array spells the values of its cells in row-major order.** -/
theorem layout_ok {values : ℕ → List (List Char)} (hF : F.Ok) (hne : dims ≠ [])
    (h : ∀ c, ∃ text, f c = .ok text ∧ Writes isValidCharacter (values c) text) :
    ∃ text, layout F f dims (offsets dims) c = .ok text ∧
      Writes isValidCharacter ((List.range' c dims.prod).flatMap values) text := by
  induction dims generalizing c with
  | nil => exact absurd rfl hne
  | cons n dims ih =>
    rw [offsets_cons, layout_cons]
    have hpart : ∀ i ∈ List.range n, ∀ i', i = i' → ∃ text,
        (do
          if dims = [] then f (c + i' * dims.prod)
          else
            let f ← layout F f dims (offsets dims) (c + i' * dims.prod)
            return F.leftParen :: (f ++ [F.rightParen])) = Except.ok text ∧
        Writes isValidCharacter ((List.range' (c + i * dims.prod) dims.prod).flatMap values) text := by
      rintro i - _ rfl
      by_cases hdims : dims = []
      · obtain ⟨text, htext, hwrites⟩ := h (c + i * dims.prod)
        rw [if_pos hdims]
        refine ⟨text, htext, ?_⟩
        rw [hdims] at hwrites ⊢
        simpa using hwrites
      · obtain ⟨text, htext, hwrites⟩ := ih (c := c + i * dims.prod) hdims
        rw [if_neg hdims, htext]
        exact ⟨_, rfl, hF.writes hwrites⟩
    obtain ⟨parts, hparts, hwrites⟩ := ExceptFold.mapM_forall₂
      (List.forall₂_same.mpr fun i _ => rfl) hpart
    rw [hparts]
    refine ⟨_, rfl, ?_⟩
    rw [List.prod_cons, ← flatMap_range', List.flatMap_assoc, List.flatMap_def]
    exact Writes.intercalate (List.forall₂_map_left_iff.mpr hwrites) (by decide)

/-- An array of cells that cannot be written cannot be written. -/
theorem layout_error {e : Halt} (hne : dims ≠ []) (hpos : ∀ n ∈ dims, 0 < n)
    (h : ∀ c, f c = .error e) : layout F f dims (offsets dims) c = .error e := by
  induction dims generalizing c with
  | nil => exact absurd rfl hne
  | cons n dims ih =>
    obtain ⟨hn, hpos⟩ := List.forall_mem_cons.mp hpos
    have hrange : List.range n ≠ [] := by
      rw [ne_eq, List.range_eq_nil]
      omega
    rw [offsets_cons, layout_cons, ExceptFold.mapM_error (e := e) hrange]
    · rfl
    · intro i _
      split
      · exact h _
      · next hdims =>
        rw [ih hdims hpos]
        rfl

end Csv

end Rasdaman
