import Mathlib.Data.List.DropRight
import Rasdaman.Conversion.Csv
import Rasdaman.Machinery.Tokens

/-!
# Conversion/CsvReading — what the decoder extracts

`convertFrom` extracts a sequence of values, number by number or character by character, and assigns each to
the memory of its type (`convertFrom_ok_iff`).  A number is extracted as it was written (`extract_text`).
-/

namespace Rasdaman

open Bytes Tokens

namespace Csv

/-! ## Values -/

/-- The values of a type. -/
def IntegerId.Fits (t : IntegerId) (v : ℤ) : Prop :=
  if t.signed then SignedRange t.size v else 0 ≤ v ∧ v < 256 ^ t.size

namespace IntegerId

variable {o : Order} {t : IntegerId} {v w : ℤ}

theorem size_pos (t : IntegerId) : 0 < t.size := by cases t <;> decide

@[simp] theorem length_put : (t.put o v).length = t.size := length_storeInt o t.size v

/-- A value is read as it was assigned. -/
theorem get_put (h : t.Fits v) : t.get o (t.put o v) = v := by
  rw [get, put]
  rw [Fits] at h
  split
  · next hs =>
    rw [if_pos hs] at h
    exact loadInt_storeInt o h
  · next hs =>
    rw [if_neg hs] at h
    obtain ⟨h0, hlt⟩ := h
    have hmod : v % 256 ^ t.size = v := Int.emod_eq_of_lt h0 hlt
    have hnat : v.toNat < 256 ^ t.size := by
      zify
      rw [Int.toNat_of_nonneg h0]
      exact hlt
    rw [storeInt, hmod, load_store o hnat, Int.toNat_of_nonneg h0]

theorem put_inj (hv : t.Fits v) (hw : t.Fits w) (h : t.put o v = t.put o w) : v = w := by
  rw [← get_put (o := o) hv, h, get_put hw]

theorem get_fits {bytes : List UInt8} (h : bytes.length = t.size) : t.Fits (t.get o bytes) := by
  have hlt := load_lt o bytes
  rw [h] at hlt
  have hlt' : (load o bytes : ℤ) < 256 ^ t.size := by exact_mod_cast hlt
  rw [Fits, get]
  split
  · next hs =>
    rw [loadInt, h]
    split
    · next hsmall =>
      have hsmall' : 2 * (load o bytes : ℤ) < 256 ^ t.size := by exact_mod_cast hsmall
      exact ⟨by have := Int.natCast_nonneg (load o bytes); omega, hsmall'⟩
    · next hbig =>
      have hbig' : ¬ 2 * (load o bytes : ℤ) < 256 ^ t.size := by exact_mod_cast hbig
      exact ⟨by omega, by omega⟩
  · exact ⟨Int.natCast_nonneg _, hlt'⟩

/-- Memory is assigned as it was read. -/
theorem put_get {bytes : List UInt8} (h : bytes.length = t.size) : t.put o (t.get o bytes) = bytes := by
  have hlt := load_lt o bytes
  rw [h] at hlt
  have hlt' : (load o bytes : ℤ) < 256 ^ t.size := by exact_mod_cast hlt
  have hmod : t.get o bytes % 256 ^ t.size = load o bytes := by
    have hself : (load o bytes : ℤ) % 256 ^ t.size = load o bytes :=
      Int.emod_eq_of_lt (Int.natCast_nonneg _) hlt'
    rw [get, loadInt, h]
    split
    · split
      · exact hself
      · rw [Int.sub_emod_right, hself]
    · exact hself
  rw [put, storeInt, hmod, Int.toNat_natCast, ← h, store_load]

end IntegerId

/-- A value that is extracted: how, and the type that it is assigned to. -/
structure Field where
  target : Target
  typeId : IntegerId

/-- The extraction goes with the type: a character is for a type of one byte, a number is extracted into a
type that has all its values. -/
def Field.Ok (k : Field) : Prop :=
  (k.target = .character ∧ (k.typeId = .octet ∨ k.typeId = .char)) ∨
    (k.target ≠ .character ∧ ∀ v, k.typeId.Fits v → k.target.bounds.1 ≤ v ∧ v ≤ k.target.bounds.2)

/-- A value that `constructPrimitive` extracts. -/
def IntegerId.field (t : IntegerId) : Field := ⟨t.target, t⟩

/-- A value that `addStructElem` extracts. -/
def IntegerId.attributeField (t : IntegerId) : Field := ⟨t.attributeTarget, t⟩

/-- The values of each type. -/
theorem IntegerId.fits_iff {t : IntegerId} {v : ℤ} : t.Fits v ↔ match t with
    | .ulong => 0 ≤ v ∧ v < 2 ^ 32
    | .ushort => 0 ≤ v ∧ v < 2 ^ 16
    | .long => -2 ^ 31 ≤ v ∧ v < 2 ^ 31
    | .short => -2 ^ 15 ≤ v ∧ v < 2 ^ 15
    | .octet => -2 ^ 7 ≤ v ∧ v < 2 ^ 7
    | .char => 0 ≤ v ∧ v < 2 ^ 8 := by
  cases t <;> norm_num [Fits, signed, size, SignedRange] <;> omega

theorem IntegerId.field_ok (t : IntegerId) : t.field.Ok := by
  cases t
  case octet => exact .inl ⟨rfl, .inl rfl⟩
  case char => exact .inl ⟨rfl, .inr rfl⟩
  all_goals
    refine .inr ⟨nofun, fun v hv => ?_⟩
    obtain ⟨hlow, hhigh⟩ := IntegerId.fits_iff.mp hv
    exact ⟨hlow, by simp only [field, target, Target.bounds]; omega⟩

theorem IntegerId.attributeField_ok (t : IntegerId) : t.attributeField.Ok := by
  cases t
  case octet => exact .inl ⟨rfl, .inl rfl⟩
  case char =>
    refine .inr ⟨nofun, fun v hv => ?_⟩
    obtain ⟨hlow, hhigh⟩ := IntegerId.fits_iff.mp hv
    simp only [attributeField, attributeTarget, Target.bounds]
    omega
  all_goals
    refine .inr ⟨nofun, fun v hv => ?_⟩
    obtain ⟨hlow, hhigh⟩ := IntegerId.fits_iff.mp hv
    exact ⟨hlow, by simp only [attributeField, attributeTarget, Target.bounds]; omega⟩

/-! ## Extraction -/

variable {o : Order} {v : ℤ} {rest : List Char}

theorem isValid_of_isDigit {c : Char} (h : c.isDigit = true) : isValidCharacter c = true := by
  rw [Char.isDigit, Bool.and_eq_true, decide_eq_true_iff, decide_eq_true_iff] at h
  have hlow : 48 ≤ c.toNat := UInt32.le_iff_toNat_le.mp h.1
  have hhigh : c.toNat ≤ 57 := UInt32.le_iff_toNat_le.mp h.2
  have hall : ∀ n < 58, 48 ≤ n → isValidCharacter (Char.ofNat n) = true := by decide
  have hc := hall c.toNat (by omega) hlow
  rwa [Char.ofNat_toNat] at hc

theorem isValid_of_mem_text {c : Char} (h : c ∈ Decimal.text v) : isValidCharacter c = true := by
  rcases Decimal.mem_text h with rfl | hdigit
  · decide
  · exact isValid_of_isDigit hdigit

theorem not_isspace {c : Char} (h : isValidCharacter c = true) : isspace c = false := by
  rw [isValidCharacter, Bool.not_eq_true', Bool.or_eq_false_iff, Bool.or_eq_false_iff] at h
  exact h.1.2

theorem token_text (v : ℤ) : Token isValidCharacter (Decimal.text v) :=
  ⟨Decimal.text_ne_nil v, fun _ hc => isValid_of_mem_text hc⟩

/-- White space before a token. -/
theorem dropWhile_isspace {t : List Char} (ht : Token isValidCharacter t) :
    (t ++ rest).dropWhile isspace = t ++ rest := by
  obtain ⟨c, t, rfl⟩ := List.exists_cons_of_ne_nil ht.1
  rw [List.cons_append, List.dropWhile_cons_of_neg]
  rw [not_isspace (ht.2 c List.mem_cons_self)]
  exact Bool.false_ne_true

/-- A numeral in the range of the type is extracted with its value. -/
theorem extract_numeral {t : Target} {text : List Char} {numeral : Decimal.Numeral} (ht : t ≠ .character)
    (hspace : text.dropWhile isspace = text) (hscan : Decimal.scan text = (numeral, rest))
    (hdigits : numeral.digits ≠ []) (hv : t.bounds.1 ≤ numeral.value ∧ numeral.value ≤ t.bounds.2) :
    (IStream.mk text false).extract t = (numeral.value, ⟨rest, false⟩) := by
  have hnumber : (IStream.mk text false).extractNumber t = (numeral.value, ⟨rest, false⟩) := by
    have hunsigned : ¬ (t.bounds.1 = 0 ∧ numeral.value < 0) := by
      rintro ⟨h0, hneg⟩
      omega
    rw [IStream.extractNumber, hspace, hscan]
    simp only [hunsigned, if_false, hdigits, not_lt.mpr hv.1, not_lt.mpr hv.2]
  cases t with
  | character => exact absurd rfl ht
  | _ => exact hnumber

/-- **A number is extracted as it was written.** -/
theorem extract_text {t : Target} (ht : t ≠ .character) (hv : t.bounds.1 ≤ v ∧ v ≤ t.bounds.2)
    (hends : Ends isValidCharacter rest) :
    (IStream.mk (Decimal.text v ++ rest) false).extract t = (v, ⟨rest, false⟩) := by
  have hdigits : ∀ c ∈ rest.head?, c.isDigit = false := fun c hc => by
    by_contra hdigit
    rw [Bool.not_eq_false] at hdigit
    exact absurd (isValid_of_isDigit hdigit) (by rw [hends c hc]; exact Bool.false_ne_true)
  have hextract := extract_numeral ht (dropWhile_isspace (token_text v)) (Decimal.scan_text v hdigits)
    Nat.toDigits_ne_nil (by rwa [Decimal.value_text])
  rwa [Decimal.value_text] at hextract

/-- A character is extracted alone. -/
theorem extract_char {c : Char} (hc : isValidCharacter c = true) :
    (IStream.mk (c :: rest) false).extract .character = ((c.toNat : ℤ), ⟨rest, false⟩) := by
  have hspace : (c :: rest).dropWhile isspace = c :: rest :=
    dropWhile_isspace (t := [c]) ⟨List.cons_ne_nil _ _, fun d hd => List.mem_singleton.mp hd ▸ hc⟩
  rw [IStream.extract, IStream.extractChar, hspace]

/-! ## Loops -/

/-- The values of fields, one after another. -/
def addFields (o : Order) : List Field → IStream → Except Halt (List UInt8 × IStream)
  | [], s => .ok ([], s)
  | k :: ks, s => do
    let (bytes, s) ← addElem o k.target k.typeId s
    let (bytes', s) ← addFields o ks s
    return (bytes ++ bytes', s)

mutual

/-- What `addStructElem` extracts for an attribute. -/
def CellType.attributeFields : CellType → List Field
  | .primitive t => [t.attributeField]
  | .struct attributes => attributes.fields

/-- What `addStructElem` extracts. -/
def CellAttributes.fields : CellAttributes → List Field
  | .last type => type.attributeFields
  | .cons type rest => type.attributeFields ++ rest.fields

end

/-- What `convertFrom` extracts for a cell. -/
def CellType.fields : CellType → List Field
  | .primitive t => [t.field]
  | .struct attributes => attributes.fields

variable {s s' : IStream} {bytes : List UInt8} {ks ls : List Field}

theorem addFields_cons {k : Field} : addFields o (k :: ks) s = (do
    let (bytes, s) ← addElem o k.target k.typeId s
    let (bytes', s) ← addFields o ks s
    return (bytes ++ bytes', s)) := rfl

theorem addFields_cons_of_ok {k : Field} (h : addElem o k.target k.typeId s = .ok (bytes, s')) :
    addFields o (k :: ks) s = (addFields o ks s').map fun r => (bytes ++ r.1, r.2) := by
  rw [addFields_cons, h]
  cases hks : addFields o ks s' <;> simp [bind, Except.bind, hks, Except.map, pure, Except.pure]

theorem addFields_append : addFields o (ks ++ ls) s = (do
    let (bytes, s) ← addFields o ks s
    let (bytes', s) ← addFields o ls s
    return (bytes ++ bytes', s)) := by
  induction ks generalizing s with
  | nil => cases h : addFields o ls s <;> simp [addFields, bind, Except.bind, h, pure, Except.pure]
  | cons k ks ih =>
    rw [List.cons_append, addFields_cons, addFields_cons]
    cases hk : addElem o k.target k.typeId s with
    | error e => rfl
    | ok r =>
      simp only [bind, Except.bind, ih, pure, Except.pure]
      cases hks : addFields o ks r.2 with
      | error e => rfl
      | ok r' => cases hls : addFields o ls r'.2 <;> simp [hls]

theorem addFields_singleton {k : Field} : addFields o [k] s = addElem o k.target k.typeId s := by
  rw [addFields_cons]
  cases addElem o k.target k.typeId s <;> simp [addFields, bind, Except.bind, pure, Except.pure]

mutual

theorem addAttribute_eq : ∀ (type : CellType) (s : IStream),
    addAttribute o type s = addFields o type.attributeFields s
  | .primitive t, s => by
    rw [addAttribute, CellType.attributeFields, addFields_singleton]
    rfl
  | .struct attributes, s => by
    rw [addAttribute, CellType.attributeFields, addStructElem_eq attributes s]

/-- `addStructElem` extracts the values of all attributes, one after another. -/
theorem addStructElem_eq : ∀ (attributes : CellAttributes) (s : IStream),
    addStructElem o attributes s = addFields o attributes.fields s
  | .last type, s => by rw [addStructElem, CellAttributes.fields, addAttribute_eq type s]
  | .cons type rest, s => by
    rw [addStructElem, CellAttributes.fields, addFields_append, addAttribute_eq type s]
    simp only [addStructElem_eq rest]

end

mutual

theorem CellType.attributeFields_ne_nil : ∀ type : CellType, type.attributeFields ≠ []
  | .primitive t => List.cons_ne_nil _ _
  | .struct attributes => by
    rw [CellType.attributeFields]
    exact attributes.fields_ne_nil

theorem CellAttributes.fields_ne_nil : ∀ attributes : CellAttributes, attributes.fields ≠ []
  | .last type => by
    rw [CellAttributes.fields]
    exact type.attributeFields_ne_nil
  | .cons type rest => by
    rw [CellAttributes.fields]
    exact List.append_ne_nil_of_left_ne_nil type.attributeFields_ne_nil _

end

theorem CellType.fields_ne_nil (type : CellType) : type.fields ≠ [] := by
  cases type with
  | primitive t => exact List.cons_ne_nil _ _
  | struct attributes => exact attributes.fields_ne_nil

theorem IStream.skip_skip (s : IStream) : s.skip.skip = s.skip := by
  exact congrArg (IStream.mk · s.fail) (List.dropWhile_idempotent _ s.rest)

/-- Where no value is left, none is read. -/
theorem addFields_error (h : s.fail ∨ s.skip.rest = []) (hks : ks ≠ []) :
    addFields o ks s = .error .endless := by
  obtain ⟨k, ks, rfl⟩ := List.exists_cons_of_ne_nil hks
  rw [addFields_cons, addElem, if_pos h]
  rfl

theorem addFields_skip (hks : ks ≠ []) : addFields o ks s.skip = addFields o ks s := by
  obtain ⟨k, ks, rfl⟩ := List.exists_cons_of_ne_nil hks
  have helem : addElem o k.target k.typeId s.skip = addElem o k.target k.typeId s := by
    rw [addElem, addElem, IStream.skip_skip]
    rfl
  rw [addFields_cons, addFields_cons, helem]

/-- The loop over the cells reads the values of all cells, one after another. -/
theorem construct_ok_iff {add : IStream → Except Halt (List UInt8 × IStream)} (hks : ks ≠ [])
    (hadd : ∀ s : IStream, ¬(s.fail ∨ s.skip.rest = []) → add s.skip = addFields o ks s) (n : ℕ) :
    construct add n s = .ok bytes ↔
      ∃ s', addFields o (List.replicate n ks).flatten s = .ok (bytes, s') := by
  induction n generalizing s bytes with
  | zero =>
    rw [construct, List.replicate_zero, List.flatten_nil, addFields]
    refine ⟨fun h => ⟨s, ?_⟩, fun ⟨s', h⟩ => ?_⟩
    · rw [← Except.ok.inj h]
    · rw [← (Prod.mk.inj (Except.ok.inj h)).1]
  | succ n ih =>
    rw [construct, List.replicate_succ, List.flatten_cons, addFields_append]
    by_cases hend : s.fail ∨ s.skip.rest = []
    · rw [if_pos hend, addFields_error hend hks]
      exact ⟨nofun, nofun⟩
    · rw [if_neg hend, hadd s hend]
      cases haddFields : addFields o ks s with
      | error e => exact ⟨nofun, nofun⟩
      | ok r =>
        obtain ⟨here, s₁⟩ := r
        simp only [bind, Except.bind, pure, Except.pure]
        cases hrest : addFields o (List.replicate n ks).flatten s₁ with
        | error e =>
          refine ⟨fun h => ?_, nofun⟩
          cases hc : construct add n s₁ with
          | error e => rw [hc] at h; cases h
          | ok there =>
            obtain ⟨s₂, hs₂⟩ := ih.mp hc
            rw [hrest] at hs₂
            cases hs₂
        | ok r =>
          rw [ih.mpr ⟨r.2, hrest⟩]
          refine ⟨fun h => ⟨r.2, ?_⟩, fun ⟨s', h⟩ => ?_⟩
          · rw [← Except.ok.inj h]
          · rw [← (Prod.mk.inj (Except.ok.inj h)).1]

/-- **`convertFrom` reads the values of all cells, one after another.** -/
theorem convertFrom_ok_iff {D : FixedDomain} {type : CellType} {src : List Char} :
    convertFrom o D type src = .ok bytes ↔
      ∃ s', addFields o (List.replicate D.numElem type.fields).flatten ⟨src, false⟩ =
        .ok (bytes, s') := by
  cases type with
  | primitive t =>
    refine construct_ok_iff (List.cons_ne_nil _ _) (fun s hs => ?_) _
    rw [addFields_singleton, addElem, if_neg hs]
    rfl
  | struct attributes =>
    refine construct_ok_iff attributes.fields_ne_nil (fun s _ => ?_) _
    rw [addStructElem_eq, addFields_skip attributes.fields_ne_nil]

end Csv

end Rasdaman
