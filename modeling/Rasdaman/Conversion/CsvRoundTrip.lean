import Rasdaman.Conversion.CsvSpelling
import Rasdaman.Conversion.CsvText

/-!
# Conversion/CsvRoundTrip — which arrays are read as they were written

`csv_iff`: an array comes back from its text if and only if its cells are no structures with a structure in
them, and the values that are read character by character are those which the digits spell.  The text in
order `inner_outer` is always that of the array with its dimensions reversed.
-/

namespace Rasdaman

open Bytes Tokens

namespace Csv

variable {o : Order} {F : Format} {fuel : ℕ} {A : SrcArray} {ks : List Field} {val : List UInt8}

/-! ## The values of an array -/

/-- The values in the memory of fields are of the types of the fields. -/
theorem readValues_fit (h : fieldsSize ks ≤ val.length) : AllFit ks (readValues o ks val) := by
  induction ks generalizing val with
  | nil => exact .nil
  | cons k ks ih =>
    rw [fieldsSize_cons] at h
    refine .cons (IntegerId.get_fits (by rw [List.length_take]; omega)) (ih ?_)
    rw [List.length_drop]
    omega

/-- The memory of the values is that from which they were read. -/
theorem puts_readValues (h : val.length = fieldsSize ks) : puts o ks (readValues o ks val) = val := by
  induction ks generalizing val with
  | nil => exact (List.length_eq_zero_iff.mp h).symm
  | cons k ks ih =>
    rw [fieldsSize_cons] at h
    rw [readValues, puts, IntegerId.put_get (by rw [List.length_take]; omega),
      ih (by rw [List.length_drop]; omega), List.take_append_drop]

/-- The values of many cells. -/
theorem readValues_replicate (n : ℕ) : readValues o (List.replicate n ks).flatten val =
    (List.range n).flatMap fun c => readValues o ks (RowMajor.cell (fieldsSize ks) val c) := by
  induction n with
  | zero => rfl
  | succ n ih =>
    rw [List.replicate_succ', List.flatten_append, List.flatten_singleton, readValues_append, ih,
      fieldsSize_replicate, List.range_succ, List.flatMap_append, List.flatMap_singleton,
      RowMajor.cell, readValues_take]

mutual

theorem CellType.attributeFields_ok : ∀ type : CellType, ∀ k ∈ type.attributeFields, k.Ok
  | .primitive t, k, hk => by
    rw [List.mem_singleton.mp hk]
    exact t.attributeField_ok
  | .struct attributes, k, hk => by
    rw [CellType.attributeFields] at hk
    exact attributes.fields_ok k hk

theorem CellAttributes.fields_ok : ∀ attributes : CellAttributes, ∀ k ∈ attributes.fields, k.Ok
  | .last type, k, hk => by
    rw [CellAttributes.fields] at hk
    exact type.attributeFields_ok k hk
  | .cons type rest, k, hk => by
    rw [CellAttributes.fields] at hk
    rcases List.mem_append.mp hk with hk | hk
    · exact type.attributeFields_ok k hk
    · exact rest.fields_ok k hk

end

theorem CellType.fields_ok (type : CellType) : ∀ k ∈ type.fields, k.Ok := by
  cases type with
  | primitive t => exact List.forall_mem_singleton.mpr t.field_ok
  | struct attributes => exact attributes.fields_ok

/-- All that `convertFrom` extracts for an array. -/
def SrcArray.fields (A : SrcArray) : List Field :=
  (List.replicate A.domain.dims.prod A.type.fields).flatten

/-- All values of an array in memory. -/
def SrcArray.values (o : Order) (A : SrcArray) : List ℤ := readValues o A.fields A.src

theorem SrcArray.length_src_fields (A : SrcArray) : A.src.length = fieldsSize A.fields := by
  rw [A.length_src, fields, fieldsSize_replicate, A.type.fieldsSize_fields]

theorem SrcArray.fields_ok (A : SrcArray) : ∀ k ∈ A.fields, k.Ok := by
  intro k hk
  obtain ⟨ks, hks, hk⟩ := List.mem_flatten.mp hk
  rw [(List.mem_replicate.mp hks).2] at hk
  exact A.type.fields_ok k hk

/-! ## Texts -/

theorem FixedDomain.dims_ne_nil (D : FixedDomain) : D.dims ≠ [] := by
  rw [dims, ne_eq, List.map_eq_nil_iff]
  exact D.bounds_ne

theorem FixedDomain.dims_pos (D : FixedDomain) : ∀ n ∈ D.dims, 0 < n := by
  intro n hn
  obtain ⟨b, hb, rfl⟩ := List.mem_map.mp hn
  have hle := D.low_le_high b hb
  omega

theorem SrcArray.values_ne_nil (A : SrcArray) : A.values o ≠ [] := by
  have hpos : 0 < A.domain.dims.prod :=
    Nat.pos_of_ne_zero (List.prod_ne_zero fun h => (A.domain.dims_pos 0 h).ne rfl)
  obtain ⟨n, hn⟩ := Nat.exists_eq_add_of_lt hpos
  refine readValues_ne_nil ?_
  rw [SrcArray.fields, hn, List.replicate_succ, List.flatten_cons]
  exact List.append_ne_nil_of_left_ne_nil A.type.fields_ne_nil _

/-- A text that spells something is not empty. -/
theorem ne_nil_of_spells {ts : List (List Char)} {text : List Char} (hts : ts ≠ [])
    (h : Tokens.Spells isValidCharacter ts text) : text ≠ [] := by
  rintro rfl
  obtain ⟨t, ts, rfl⟩ := List.exists_cons_of_ne_nil hts
  obtain ⟨rest, hdrop, htoken, -, -⟩ := h.dropWhile
  exact htoken.1 (List.append_eq_nil_iff.mp hdrop.symm).1

/-- The text of an array whose extents fit in an `int`. -/
def SrcArray.text (o : Order) (F : Format) (fuel : ℕ) (A : SrcArray) : Except Halt (List Char) :=
  arrayText o F fuel A.type A.src A.domain.dims (offsets A.domain.dims)

/-- The array is smaller than `2^32` bytes, and its extents and texts are shorter than `2^31`. -/
structure SrcArray.Fits (o : Order) (A : SrcArray) : Prop where
  extents : ∀ n ∈ A.domain.dims, n < 2 ^ 31
  size : A.src.length < 2 ^ 32
  length : ∀ F ∈ [csv, json], ∀ fuel str, A.text o F fuel = .ok str → str.length < 2 ^ 31

/-- **The text of an array spells its values.** -/
theorem text_ok (hF : F.Ok) (h : A.type.flat = true) (hfuel : A.type.calls ≤ fuel) :
    ∃ text, A.text o F fuel = .ok text ∧ text ≠ [] ∧
      Tokens.Spells isValidCharacter ((A.values o).map Decimal.text) text := by
  have hcell : ∀ c, ∃ text, cellText o A.type fuel A.src c = .ok text ∧
      Writes isValidCharacter
        ((readValues o A.type.fields (RowMajor.cell A.type.size A.src c)).map Decimal.text) text := by
    intro c
    rw [cellText, printValue_flat h, if_pos hfuel]
    exact ⟨_, rfl, writes_text⟩
  obtain ⟨text, htext, hwrites⟩ := layout_ok (c := 0) hF A.domain.dims_ne_nil hcell
  have hvalues : ((List.range' 0 A.domain.dims.prod).flatMap fun c =>
      (readValues o A.type.fields (RowMajor.cell A.type.size A.src c)).map Decimal.text) =
        (A.values o).map Decimal.text := by
    rw [SrcArray.values, SrcArray.fields, readValues_replicate, A.type.fieldsSize_fields,
      List.map_flatMap, List.range_eq_range']
  rw [hvalues] at hwrites
  have hne : text ≠ [] := ne_nil_of_spells (by simpa using A.values_ne_nil) hwrites.spells
  rw [SrcArray.text, arrayText]
  simp only [printArray_start, htext, bind, Except.bind]
  split
  · exact ⟨_, rfl, List.cons_ne_nil _ _, (hF.writes hwrites).spells⟩
  · split
    · exact ⟨_, rfl, List.cons_ne_nil _ _, (hF.writes hwrites).spells⟩
    · exact ⟨_, rfl, hne, hwrites.spells⟩

/-- Where no cell has a text, the array has none. -/
theorem text_error {e : Halt} (h : ∀ c, cellText o A.type fuel A.src c = .error e) :
    A.text o F fuel = .error e := by
  rw [SrcArray.text, arrayText]
  simp only [printArray_start, layout_error A.domain.dims_ne_nil A.domain.dims_pos h]
  rfl

/-- Without room for the calls there is no text. -/
theorem text_short (h : A.type.flat = true) (hfuel : ¬A.type.calls ≤ fuel) :
    A.text o F fuel = .error .endless :=
  text_error fun c => by rw [cellText, printValue_flat h, if_neg hfuel]; rfl

/-- An array of structures with a structure in them has no text. -/
theorem text_nested (h : A.type.flat = false) : A.text o F fuel = .error .endless :=
  text_error fun c => by rw [cellText, printValue_nested h]; rfl

/-- Extents below `2^31` are what the `int`s hold. -/
theorem dimsizes_eq (h : ∀ n ∈ A.domain.dims, n < 2 ^ 31) : A.domain.dimsizes = A.domain.dims := by
  refine (List.map_congr_left fun n hn => ?_).trans (List.map_id _)
  have := h n hn
  rw [toInt_of_lt (by omega) (by omega)]
  exact Int.toNat_natCast n

theorem convertTo_outerInner (h : ∀ n ∈ A.domain.dims, n < 2 ^ 31) :
    convertTo o F fuel .outerInner A = (A.text o F fuel).bind asResult := by
  rw [convertTo, dimsizes_eq h]
  rfl

/-- A text that is not too long is the result. -/
theorem asResult_eq {str : List Char} (hne : str ≠ []) (h : str.length < 2 ^ 31) :
    asResult str = .ok str := by
  have hpos := List.length_pos_iff.mpr hne
  have hint : toInt str.length = str.length := toInt_of_lt (by omega) (by omega)
  simp only [asResult, hint]
  rw [if_neg (by omega), Int.toNat_natCast, List.take_length]

/-! ## Round trips -/

/-- The array is written, and comes back from the text. -/
def RoundTrips (o : Order) (F : Format) (A : SrcArray) : Prop :=
  ∃ fuel text, convertTo o F fuel .outerInner A = .ok text ∧
    convertFrom o A.domain A.type text = .ok A.src

/-- From a text that spells its values an array comes back if and only if they spell themselves. -/
theorem convertFrom_iff {text : List Char} (hsize : A.src.length < 2 ^ 32)
    (h : Tokens.Spells isValidCharacter ((A.values o).map Decimal.text) text) :
    convertFrom o A.domain A.type text = .ok A.src ↔
      SpellsItself (A.fields.map Field.target) (A.values o) := by
  have hfit : AllFit A.fields (A.values o) := readValues_fit A.length_src_fields.ge
  have hputs : puts o A.fields (A.values o) = A.src := puts_readValues A.length_src_fields
  have hreads := reads_iff (o := o) hfit A.fields_ok h
  rw [Reads, hputs] at hreads
  rw [convertFrom_ok_iff, FixedDomain.numElem_eq (A.length_src ▸ hsize)]
  exact hreads

theorem roundTrips_iff (hfits : A.Fits o) (hmem : F ∈ [csv, json]) : RoundTrips o F A ↔
    A.type.flat = true ∧ SpellsItself (A.fields.map Field.target) (A.values o) := by
  have hF : F.Ok := format_ok hmem
  cases h : A.type.flat with
  | false =>
    refine ⟨fun ⟨fuel, text, htext, _⟩ => ?_, fun ⟨hflat, _⟩ => nomatch hflat⟩
    rw [convertTo_outerInner hfits.extents, text_nested h] at htext
    cases htext
  | true =>
    refine ⟨fun ⟨fuel, text, htext, hsrc⟩ => ⟨rfl, ?_⟩, fun ⟨_, hvalues⟩ => ?_⟩
    · have hfuel : A.type.calls ≤ fuel := by
        by_contra hless
        rw [convertTo_outerInner hfits.extents, text_short h hless] at htext
        cases htext
      obtain ⟨text', htext', hne, hspells⟩ := text_ok (o := o) hF h hfuel
      have hresult := asResult_eq hne (hfits.length F hmem fuel text' htext')
      rw [convertTo_outerInner hfits.extents, htext', Except.bind, hresult] at htext
      obtain rfl := Except.ok.inj htext
      exact (convertFrom_iff hfits.size hspells).mp hsrc
    · obtain ⟨text, htext, hne, hspells⟩ := text_ok (o := o) hF h le_rfl
      refine ⟨A.type.calls, text, ?_, (convertFrom_iff hfits.size hspells).mpr hvalues⟩
      rw [convertTo_outerInner hfits.extents, htext, Except.bind,
        asResult_eq hne (hfits.length F hmem _ text htext)]

/-! ## Reversed dimensions -/

/-- The domain with its dimensions reversed. -/
def FixedDomain.reversed (D : FixedDomain) : FixedDomain where
  bounds := D.bounds.reverse
  bounds_ne := by simpa using D.bounds_ne
  low_le_high b hb := D.low_le_high b (List.mem_reverse.mp hb)

theorem FixedDomain.dims_reversed (D : FixedDomain) : D.reversed.dims = D.dims.reverse :=
  List.map_reverse

/-- The cell of `src` at a position with its coordinates reversed; `c` is the number of that position. -/
def SrcArray.reversedCell (A : SrcArray) (c : ℕ) : List UInt8 :=
  RowMajor.cell A.type.size A.src
    (RowMajor.offset A.domain.dims (RowMajor.position A.domain.dims.reverse c).reverse)

theorem SrcArray.length_reversedCell (A : SrcArray) {c : ℕ} (hc : c < A.domain.dims.prod) :
    (A.reversedCell c).length = A.type.size := by
  have hposition : List.Forall₂ (· < ·) (RowMajor.position A.domain.dims.reverse c)
      A.domain.dims.reverse :=
    RowMajor.position_lt (by rwa [List.prod_reverse])
  have hlt := RowMajor.offset_lt (List.forall₂_reverse_iff.mpr hposition)
  rw [List.reverse_reverse] at hlt
  have hle := Nat.mul_le_mul_right A.type.size (Nat.succ_le_of_lt hlt)
  rw [Nat.succ_mul, ← A.length_src] at hle
  rw [reversedCell, RowMajor.cell, List.length_take, List.length_drop]
  omega

/-- The array with its dimensions reversed. -/
def SrcArray.reversed (A : SrcArray) : SrcArray where
  type := A.type
  domain := A.domain.reversed
  src := (List.range A.domain.dims.prod).flatMap A.reversedCell
  length_src := by
    rw [A.domain.dims_reversed, List.prod_reverse]
    exact RowMajor.length_flatMap fun c hc => A.length_reversedCell hc

/-- Reversed positions and reversed offsets. -/
theorem cellAt_reverse {offs xs : List ℕ} (h : xs.length = offs.length) :
    cellAt offs.reverse xs = cellAt offs xs.reverse := by
  rw [cellAt, cellAt, ← List.sum_reverse, List.reverse_zipWith (by simpa using h),
    List.reverse_reverse]

/-- **The text in order `inner_outer`** is that of the array with its dimensions reversed. -/
theorem convertTo_innerOuter (h : ∀ n ∈ A.domain.dims, n < 2 ^ 31) :
    convertTo o F fuel .innerOuter A = convertTo o F fuel .outerInner A.reversed := by
  have hlayout : layout F (cellText o A.type fuel A.src) A.domain.dims.reverse
        (offsets A.domain.dims).reverse 0 =
      layout F (cellText o A.type fuel A.reversed.src) A.domain.dims.reverse
        (offsets A.domain.dims.reverse) 0 := by
    refine layout_congr (by rw [List.length_reverse, List.length_reverse, length_offsets])
      length_offsets (by simpa using A.domain.dims_ne_nil) fun xs hxs => ?_
    have hlen : xs.length = A.domain.dims.reverse.length := hxs.length_eq
    have hlt := RowMajor.offset_lt hxs
    rw [List.prod_reverse] at hlt
    rw [Nat.zero_add, Nat.zero_add, cellAt_offsets hlen,
      cellAt_reverse (by rw [hlen, List.length_reverse, length_offsets]),
      cellAt_offsets (by rw [List.length_reverse, hlen, List.length_reverse])]
    rw [cellText, cellText, SrcArray.reversed,
      RowMajor.cell_flatMap (fun c hc => A.length_reversedCell hc) hlt, SrcArray.reversedCell,
      RowMajor.position_offset hxs]
  have hdims : A.reversed.domain.dims = A.domain.dims.reverse := A.domain.dims_reversed
  have htype : A.reversed.type = A.type := rfl
  have hreversed : ∀ n ∈ A.reversed.domain.dims, n < 2 ^ 31 := by
    rw [hdims]
    exact fun n hn => h n (List.mem_reverse.mp hn)
  rw [convertTo_outerInner hreversed, convertTo, dimsizes_eq h, SrcArray.text]
  simp only [arrayText, hdims, htype, printArray_start, hlayout, List.length_reverse]
  rfl

/-! ## The main result -/

/-- **Arrays come back from their texts, and reversed arrays are written in order `inner_outer`**, if and
only if no attribute is a structure itself, and the values are free up to the first one that is extracted as a
character, and from there on those which their own digits spell.  The sizes have to fit. -/
theorem csv_iff {o : Order} {A : SrcArray} (hfits : A.Fits o) :
    ((∀ F ∈ [csv, json], RoundTrips o F A) ∧
      ∀ F ∈ [csv, json], ∀ fuel, convertTo o F fuel .innerOuter A =
        convertTo o F fuel .outerInner A.reversed) ↔
    A.type.flat = true ∧ SpellsItself (A.fields.map Field.target) (A.values o) := by
  rw [and_iff_left fun F _ fuel => convertTo_innerOuter hfits.extents, List.forall_mem_cons,
    List.forall_mem_singleton, roundTrips_iff hfits (by simp), roundTrips_iff hfits (by simp), and_self]

theorem two_bounds : [((0 : ℤ), (1 : ℤ)), ((0 : ℤ), (1 : ℤ))] ≠ [] := List.cons_ne_nil _ _

theorem two_bounds_ordered : ∀ b ∈ [((0 : ℤ), (1 : ℤ)), ((0 : ℤ), (1 : ℤ))], b.1 ≤ b.2 := by decide

/-- Four cells of type `ushort`, written as `{1,2},{3,4}`. -/
def fourCells : SrcArray where
  type := .primitive .ushort
  domain := ⟨[(0, 1), (0, 1)], two_bounds, two_bounds_ordered⟩
  src := [1, 0, 2, 0, 3, 0, 4, 0]
  length_src := rfl

theorem fourCells_fits : fourCells.Fits .little where
  extents := by decide
  size := by decide
  length := by
    intro F hF fuel str hstr
    cases fuel with
    | zero =>
      have hnone : fourCells.text .little F 0 = .error .endless := rfl
      rw [hnone] at hstr
      cases hstr
    | succ fuel =>
      rcases List.mem_pair.mp hF with rfl | rfl
      · have htext : fourCells.text .little csv (fuel + 1) = .ok "{1,2},{3,4}".toList := rfl
        rw [htext] at hstr
        obtain rfl := Except.ok.inj hstr
        decide
      · have htext : fourCells.text .little json (fuel + 1) = .ok "[[1,2],[3,4]]".toList := rfl
        rw [htext] at hstr
        obtain rfl := Except.ok.inj hstr
        decide

/-- The four cells come back. -/
theorem csv_iff_fourCells : (∀ F ∈ [csv, json], RoundTrips .little F fourCells) ∧
    ∀ F ∈ [csv, json], ∀ fuel, convertTo .little F fuel .innerOuter fourCells =
      convertTo .little F fuel .outerInner fourCells.reversed :=
  (csv_iff fourCells_fits).mpr ⟨rfl, trivial⟩

theorem one_bound : [((0 : ℤ), (0 : ℤ))] ≠ [] := List.cons_ne_nil _ _

theorem one_cell_ordered : ∀ b ∈ [((0 : ℤ), (0 : ℤ))], b.1 ≤ b.2 := by decide

/-- One cell of type `char` with the value 7. -/
def seven : SrcArray where
  type := .primitive .char
  domain := ⟨[(0, 0)], one_bound, one_cell_ordered⟩
  src := [7]
  length_src := rfl

/-- The 7 is written as `{7}`, and read as the number of the character `7`, which is 55. -/
theorem seven_changes : convertTo .little csv 1 .outerInner seven = .ok ['{', '7', '}'] ∧
    convertFrom .little seven.domain seven.type ['{', '7', '}'] = .ok [55] ∧
    ¬RoundTrips .little csv seven := by
  have hread : convertFrom .little seven.domain seven.type ['{', '7', '}'] = .ok [55] := rfl
  have hextents : ∀ n ∈ seven.domain.dims, n < 2 ^ 31 := by decide
  have hseven : ∀ fuel, convertTo .little csv (fuel + 1) .outerInner seven = .ok ['{', '7', '}'] := by
    intro fuel
    have htext : seven.text .little csv (fuel + 1) = .ok ['{', '7', '}'] := rfl
    have hresult : asResult ['{', '7', '}'] = .ok ['{', '7', '}'] :=
      asResult_eq (List.cons_ne_nil _ _) (by decide)
    rw [convertTo_outerInner hextents, htext, Except.bind, hresult]
  refine ⟨hseven 0, hread, fun ⟨fuel, text, htext, hsrc⟩ => ?_⟩
  cases fuel with
  | zero =>
    have hnone : seven.text .little csv 0 = .error .endless := rfl
    rw [convertTo_outerInner hextents, hnone] at htext
    cases htext
  | succ fuel =>
    rw [hseven] at htext
    cases htext
    rw [hread] at hsrc
    exact absurd hsrc (by decide)

end Csv

end Rasdaman
