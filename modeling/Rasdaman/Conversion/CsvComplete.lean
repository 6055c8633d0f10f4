import Mathlib
import Rasdaman.Conversion.CsvSpelling
import Rasdaman.Conversion.CsvText

/-!
# Conversion/CsvComplete — which texts are decoded

`convertFrom` extracts the components of the cells one after another.  It looks at the stream in front of a
cell only, and takes what an extraction leaves for its value.  **It decodes safely** (`decodesSafely_iff`) if
the stream ends or fails in front of a cell, or never and what it extracts are the integers of the text.
-/

namespace Rasdaman

open Bytes

namespace Csv

variable {o : Order} {k : Field} {ks ls : List Field} {s : IStream} {text rest : List Char} {v : ℤ}

/-! ## Extractions in a row -/

/-- The value that is extracted for a field. -/
def Field.value (k : Field) (s : IStream) : ℤ := (s.skip.extract k.target).1

/-- The stream after the extraction. -/
def Field.next (k : Field) (s : IStream) : IStream := (s.skip.extract k.target).2

/-- An extraction has failed, or no character is left that is part of a value. -/
def IStream.Dry (s : IStream) : Prop := s.fail ∨ s.skip.rest = []

instance : Decidable s.Dry := inferInstanceAs (Decidable (_ ∨ _))

/-- The first field in front of which the stream is dry. -/
def stopsAt : List Field → IStream → Option ℕ
  | [], _ => none
  | k :: ks, s => if s.Dry then some 0 else (stopsAt ks (k.next s)).map (· + 1)

/-- The values that are extracted for fields. -/
def extracted : List Field → IStream → List ℤ
  | [], _ => []
  | k :: ks, s => k.value s :: extracted ks (k.next s)

/-- The stream after the extractions. -/
def streamAfter (ks : List Field) (s : IStream) : IStream := ks.foldl (fun s k => k.next s) s

theorem stopsAt_append : stopsAt (ks ++ ls) s = match stopsAt ks s with
    | some j => some j
    | none => (stopsAt ls (streamAfter ks s)).map (· + ks.length) := by
  induction ks generalizing s with
  | nil => cases h : stopsAt ls s <;> simp [stopsAt, streamAfter, h]
  | cons k ks ih =>
    rw [List.cons_append, stopsAt, stopsAt, ih]
    split_ifs with hdry
    · rfl
    · cases stopsAt ks (k.next s) with
      | some j => rfl
      | none =>
        simp only [Option.map_none, Option.map_map, streamAfter, List.foldl_cons, List.length_cons]
        rfl

theorem stopsAt_bounds {j : ℕ} (hdry : ¬ s.Dry) (h : stopsAt ks s = some j) : j ≠ 0 ∧ j < ks.length := by
  have hlt : ∀ {ks : List Field} {s : IStream} {j : ℕ}, stopsAt ks s = some j → j < ks.length := by
    intro ks
    induction ks with
    | nil => exact fun h => nomatch h
    | cons k ks ih =>
      intro s j h
      rw [stopsAt] at h
      split_ifs at h
      · obtain rfl := Option.some.inj h
        exact Nat.succ_pos _
      · obtain ⟨i, hi, rfl⟩ := Option.map_eq_some_iff.mp h
        exact Nat.succ_lt_succ (ih hi)
  refine ⟨?_, hlt h⟩
  cases ks with
  | nil => cases h
  | cons k ks =>
    rw [stopsAt, if_neg hdry] at h
    obtain ⟨i, -, rfl⟩ := Option.map_eq_some_iff.mp h
    exact Nat.succ_ne_zero i

theorem extracted_append : extracted (ks ++ ls) s = extracted ks s ++ extracted ls (streamAfter ks s) := by
  induction ks generalizing s with
  | nil => rfl
  | cons k ks ih => rw [List.cons_append, extracted, extracted, ih]; rfl

@[simp] theorem length_extracted : (extracted ks s).length = ks.length := by
  induction ks generalizing s with
  | nil => rfl
  | cons k ks ih => rw [extracted, List.length_cons, List.length_cons, ih]

theorem puts_append {vs ws : List ℤ} (h : vs.length = ks.length) :
    puts o (ks ++ ls) (vs ++ ws) = puts o ks vs ++ puts o ls ws := by
  induction ks generalizing vs with
  | nil =>
    obtain rfl := List.length_eq_zero_iff.mp h
    rfl
  | cons k ks ih =>
    obtain ⟨v, vs, rfl⟩ := List.exists_cons_of_length_eq_add_one h
    rw [List.cons_append, List.cons_append, puts, puts, ih (Nat.succ.inj h), List.append_assoc]

theorem addElem_eq : addElem o k.target k.typeId s =
    if s.Dry then .error .endless else .ok (k.typeId.put o (k.value s), k.next s) := rfl

/-- The loops over the attributes do not end where the stream gets dry. -/
theorem addFields_eq : addFields o ks s = match stopsAt ks s with
    | some _ => .error .endless
    | none => .ok (puts o ks (extracted ks s), streamAfter ks s) := by
  induction ks generalizing s with
  | nil => rfl
  | cons k ks ih =>
    rw [addFields_cons, addElem_eq, stopsAt]
    split_ifs with hdry
    · rfl
    · simp only [bind, Except.bind, ih]
      cases stopsAt ks (k.next s) <;> rfl

theorem construct_succ (add : IStream → Except Halt (List UInt8 × IStream)) (n : ℕ) (s : IStream) :
    construct add (n + 1) s = if s.Dry then .error (.throws .general) else (do
      let (bytes, s) ← add s.skip
      let rest ← construct add n s
      return bytes ++ rest) := rfl

/-- **The loop over the cells** throws where the stream gets dry in front of a cell. -/
theorem construct_eq {add : IStream → Except Halt (List UInt8 × IStream)} (hks : ks ≠ [])
    (hadd : ∀ s : IStream, ¬ s.Dry → add s.skip = addFields o ks s) (n : ℕ) :
    construct add n s = match stopsAt (List.replicate n ks).flatten s with
      | some j => if j % ks.length = 0 then .error (.throws .general) else .error .endless
      | none => .ok (puts o (List.replicate n ks).flatten (extracted (List.replicate n ks).flatten s)) := by
  induction n generalizing s with
  | zero => rfl
  | succ n ih =>
    rw [construct_succ, List.replicate_succ, List.flatten_cons, stopsAt_append]
    by_cases hdry : s.Dry
    · obtain ⟨k, ks, rfl⟩ := List.exists_cons_of_ne_nil hks
      rw [if_pos hdry, stopsAt, if_pos hdry]
      exact (if_pos (Nat.zero_mod _)).symm
    · rw [if_neg hdry, hadd s hdry, addFields_eq]
      cases hstop : stopsAt ks s with
      | some j =>
        obtain ⟨hj, hlt⟩ : j ≠ 0 ∧ j < ks.length := stopsAt_bounds hdry hstop
        dsimp only [bind, Except.bind]
        rw [if_neg (by rwa [Nat.mod_eq_of_lt hlt])]
      | none =>
        simp only [bind, Except.bind, ih]
        cases stopsAt (List.replicate n ks).flatten (streamAfter ks s) with
        | some j =>
          simp only [Option.map_some, Nat.add_mod_right]
          split_ifs <;> rfl
        | none =>
          simp only [Option.map_none]
          rw [extracted_append, puts_append length_extracted]
          rfl

/-- The fields of the cells that are read. -/
def cellFields (D : FixedDomain) (type : CellType) : List Field :=
  (List.replicate D.numElem type.fields).flatten

/-- The fields of all cells. -/
def allFields (D : FixedDomain) (type : CellType) : List Field :=
  (List.replicate D.dims.prod type.fields).flatten

/-- **`convertFrom`** stops in front of a cell or in one, or extracts a value for each field. -/
theorem convertFrom_eq (D : FixedDomain) (type : CellType) (text : List Char) :
    convertFrom o D type text = match stopsAt (cellFields D type) ⟨text, false⟩ with
      | some j => if j % type.fields.length = 0 then .error (.throws .general) else .error .endless
      | none => .ok (puts o (cellFields D type) (extracted (cellFields D type) ⟨text, false⟩)) := by
  cases type with
  | primitive t =>
    refine construct_eq (List.cons_ne_nil _ _) (fun s hs => ?_) _
    rw [addFields_singleton, addElem_eq, if_neg hs]
    rfl
  | struct attributes =>
    refine construct_eq attributes.fields_ne_nil (fun s _ => ?_) _
    rw [addStructElem_eq, addFields_skip attributes.fields_ne_nil]

/-! ## What is written -/

mutual

/-- The memory that `addStructElem` has written when it returns or hangs. -/
def structWritten (o : Order) : CellAttributes → IStream → List UInt8
  | .last type, s => attributeWritten o type s
  | .cons type rest, s =>
    match addAttribute o type s with
    | .ok (bytes, s') => bytes ++ structWritten o rest s'
    | .error _ => attributeWritten o type s

/-- What one round of its loop has written. -/
def attributeWritten (o : Order) : CellType → IStream → List UInt8
  | .struct attributes, s => structWritten o attributes s
  | .primitive t, s =>
    match addElem o t.attributeTarget t s with
    | .ok (bytes, _) => bytes
    | .error _ => []

end

/-- What the loop over the cells has written, from what one round of it has. -/
def constructWritten (add : IStream → Except Halt (List UInt8 × IStream)) (written : IStream → List UInt8) :
    (numElem : ℕ) → IStream → List UInt8
  | 0, _ => []
  | numElem + 1, s =>
    if s.fail ∨ s.skip.rest = [] then []
    else match add s.skip with
      | .ok (bytes, s') => bytes ++ constructWritten add written numElem s'
      | .error _ => written s.skip

/-- The memory that `convertFrom` has written from the start of the result on when it returns, throws or
hangs. -/
def convertFromWritten (o : Order) (D : FixedDomain) (type : CellType) (text : List Char) : List UInt8 :=
  match type with
  | .primitive t =>
    constructWritten (fun s => .ok (t.put o (s.extract t.target).1, (s.extract t.target).2)) (fun _ => [])
      D.numElem ⟨text, false⟩
  | .struct attributes =>
    constructWritten (addStructElem o attributes) (structWritten o attributes) D.numElem ⟨text, false⟩

theorem length_puts {vs : List ℤ} (h : vs.length = ks.length) : (puts o ks vs).length = fieldsSize ks := by
  induction ks generalizing vs with
  | nil =>
    obtain rfl := List.length_eq_zero_iff.mp h
    rfl
  | cons k ks ih =>
    obtain ⟨v, vs, rfl⟩ := List.exists_cons_of_length_eq_add_one h
    rw [puts, List.length_append, IntegerId.length_put, ih (Nat.succ.inj h), fieldsSize_cons]

theorem length_of_addFields_ok {bytes : List UInt8} {s' : IStream} (h : addFields o ks s = .ok (bytes, s')) :
    bytes.length = fieldsSize ks := by
  rw [addFields_eq] at h
  cases hstop : stopsAt ks s with
  | some j => rw [hstop] at h; cases h
  | none =>
    rw [hstop] at h
    obtain ⟨rfl, -⟩ := Prod.mk.inj (Except.ok.inj h)
    exact length_puts length_extracted

mutual

theorem length_structWritten_le : ∀ (attributes : CellAttributes) (s : IStream),
    (structWritten o attributes s).length ≤ attributes.size
  | .last type, s => by
    rw [structWritten, CellAttributes.size]
    exact length_attributeWritten_le type s
  | .cons type rest, s => by
    rw [structWritten, CellAttributes.size]
    cases h : addAttribute o type s with
    | error e => exact (length_attributeWritten_le type s).trans (Nat.le_add_right _ _)
    | ok r =>
      rw [addAttribute_eq] at h
      rw [List.length_append, length_of_addFields_ok h, CellType.fieldsSize_attributeFields]
      exact Nat.add_le_add_left (length_structWritten_le rest r.2) _

theorem length_attributeWritten_le : ∀ (type : CellType) (s : IStream),
    (attributeWritten o type s).length ≤ type.size
  | .struct attributes, s => by
    rw [attributeWritten, CellType.size]
    exact length_structWritten_le attributes s
  | .primitive t, s => by
    rw [attributeWritten]
    cases h : addElem o t.attributeTarget t s with
    | error e => exact Nat.zero_le _
    | ok r =>
      have hlength := length_of_addFields_ok ((@addFields_singleton o s t.attributeField).trans h)
      rw [hlength]
      exact le_of_eq (CellType.fieldsSize_attributeFields (.primitive t))

end

theorem length_constructWritten_le {add : IStream → Except Halt (List UInt8 × IStream)}
    {written : IStream → List UInt8} {size : ℕ}
    (hadd : ∀ s bytes s', add s = .ok (bytes, s') → bytes.length = size)
    (hwritten : ∀ s, (written s).length ≤ size) (n : ℕ) (s : IStream) :
    (constructWritten add written n s).length ≤ n * size := by
  induction n generalizing s with
  | zero => exact Nat.zero_le _
  | succ n ih =>
    rw [constructWritten, Nat.succ_mul, Nat.add_comm]
    split_ifs with hdry
    · exact Nat.zero_le _
    · cases h : add s.skip with
      | error e => exact (hwritten _).trans (Nat.le_add_right _ _)
      | ok r =>
        rw [List.length_append, hadd _ _ _ h]
        exact Nat.add_le_add_left (ih r.2) _

/-- **`convertFrom` writes no more than `numElem` cells**, however it ends. -/
theorem length_convertFromWritten_le (D : FixedDomain) (type : CellType) (text : List Char) :
    (convertFromWritten o D type text).length ≤ D.numElem * type.size := by
  cases type with
  | primitive t =>
    refine length_constructWritten_le (fun s bytes s' h => ?_) (fun _ => Nat.zero_le _) _ _
    obtain ⟨rfl, -⟩ := Prod.mk.inj (Except.ok.inj h)
    exact IntegerId.length_put
  | struct attributes =>
    refine length_constructWritten_le (fun s bytes s' h => ?_) (length_structWritten_le attributes) _ _
    rw [addStructElem_eq] at h
    rw [length_of_addFields_ok h]
    exact CellAttributes.fieldsSize_fields attributes

theorem constructWritten_of_ok {add : IStream → Except Halt (List UInt8 × IStream)}
    {written : IStream → List UInt8} {n : ℕ} {s : IStream} {bytes : List UInt8}
    (h : construct add n s = .ok bytes) : constructWritten add written n s = bytes := by
  induction n generalizing s bytes with
  | zero => exact Except.ok.inj h
  | succ n ih =>
    rw [construct_succ] at h
    split_ifs at h with hdry
    obtain ⟨⟨here, s'⟩, hadd, h⟩ := ExceptFold.bind_eq_ok h
    obtain ⟨there, hrest, h⟩ := ExceptFold.bind_eq_ok h
    rw [constructWritten, ← Except.ok.inj h, ← ih hrest]
    refine (if_neg hdry).trans ?_
    rw [hadd]

/-- Where the stream gets dry in front of a cell, the cells before it have been written. -/
theorem length_constructWritten {add : IStream → Except Halt (List UInt8 × IStream)}
    {written : IStream → List UInt8} (hks : ks ≠ [])
    (hadd : ∀ s : IStream, ¬ s.Dry → add s.skip = addFields o ks s) {n j : ℕ}
    (hstop : stopsAt (List.replicate n ks).flatten s = some j) (hj : j % ks.length = 0) :
    (constructWritten add written n s).length = j / ks.length * fieldsSize ks := by
  have hlen : 0 < ks.length := List.length_pos_iff.mpr hks
  induction n generalizing s j with
  | zero => cases hstop
  | succ n ih =>
    rw [constructWritten]
    by_cases hdry : s.Dry
    · obtain ⟨k, ks, rfl⟩ := List.exists_cons_of_ne_nil hks
      rw [List.replicate_succ, List.flatten_cons, List.cons_append, stopsAt, if_pos hdry] at hstop
      obtain rfl := Option.some.inj hstop
      rw [Nat.zero_div, Nat.zero_mul]
      exact congrArg List.length (if_pos hdry)
    · rw [List.replicate_succ, List.flatten_cons, stopsAt_append] at hstop
      refine (congrArg List.length (if_neg hdry)).trans ?_
      rw [hadd s hdry, addFields_eq]
      cases hcell : stopsAt ks s with
      | some i =>
        obtain ⟨hi, hlt⟩ := stopsAt_bounds hdry hcell
        rw [hcell] at hstop
        obtain rfl := Option.some.inj hstop
        rw [Nat.mod_eq_of_lt hlt] at hj
        exact absurd hj hi
      | none =>
        rw [hcell] at hstop
        obtain ⟨i, hrest, rfl⟩ := Option.map_eq_some_iff.mp hstop
        rw [Nat.add_mod_right] at hj
        rw [List.length_append, length_puts length_extracted, ih hrest hj, Nat.add_div_right _ hlen,
          Nat.succ_mul, Nat.add_comm]

/-- So many bytes has `convertFrom` written when it throws. -/
theorem length_convertFromWritten {D : FixedDomain} {type : CellType} {j : ℕ}
    (hstop : stopsAt (cellFields D type) ⟨text, false⟩ = some j) (hj : j % type.fields.length = 0) :
    (convertFromWritten o D type text).length = j / type.fields.length * type.size := by
  rw [← type.fieldsSize_fields]
  cases type with
  | primitive t =>
    refine length_constructWritten (o := o) (List.cons_ne_nil _ _) (fun s hs => ?_) hstop hj
    rw [addFields_singleton, addElem_eq, if_neg hs]
    rfl
  | struct attributes =>
    refine length_constructWritten (o := o) attributes.fields_ne_nil (fun s _ => ?_) hstop hj
    rw [addStructElem_eq, addFields_skip attributes.fields_ne_nil]

/-- The result of `convertFrom` is what it has written. -/
theorem convertFromWritten_of_ok {D : FixedDomain} {type : CellType} {bytes : List UInt8}
    (h : convertFrom o D type text = .ok bytes) : convertFromWritten o D type text = bytes := by
  cases type with
  | primitive t => exact constructWritten_of_ok h
  | struct attributes => exact constructWritten_of_ok h

/-! ## What a text has to hold -/

/-- A text has a decimal integer behind the characters that separate values. -/
def StartsWith (text : List Char) (v : ℤ) (rest : List Char) : Prop :=
  ∃ numeral, Decimal.scan (text.dropWhile fun c => !isValidCharacter c) = (numeral, rest) ∧
    numeral.digits ≠ [] ∧ numeral.value = v

/-- A text has decimal integers, one after another. -/
def Spells : List Char → List ℤ → Prop
  | _, [] => True
  | text, v :: vs => ∃ rest, StartsWith text v rest ∧ Spells rest vs

/-- The result has, in order, an integer of the text for each component of each cell. -/
def Complete (o : Order) (ks : List Field) (text : List Char) (bytes : List UInt8) : Prop :=
  ∃ vs, Spells text vs ∧ AllFit ks vs ∧ bytes = puts o ks vs

/-- `convertFrom` ends, writes inside of what it has allocated, and returns only where the text was
complete. -/
structure DecodesSafely (o : Order) (D : FixedDomain) (type : CellType) (text : List Char) : Prop where
  ends : convertFrom o D type text ≠ .error .endless
  inside : (convertFromWritten o D type text).length ≤ D.totalSize type
  complete : ∀ bytes, convertFrom o D type text = .ok bytes → Complete o (allFields D type) text bytes

/-- Each component has an integer of its type in the text, and what is extracted for it is stored as that
integer. -/
def Genuine : List Field → List Char → IStream → Prop
  | [], _, _ => True
  | k :: ks, text, s => ∃ v rest, StartsWith text v rest ∧ k.typeId.Fits v ∧
      k.value s ≡ v [ZMOD 256 ^ k.typeId.size] ∧ Genuine ks rest (k.next s)

/-- Where decoding is safe: the stream gets dry in front of a cell and the cells before it have room, or
the whole array has room and the values are genuine. -/
def Decodable (D : FixedDomain) (type : CellType) (text : List Char) : Prop :=
  match stopsAt (cellFields D type) ⟨text, false⟩ with
  | some j => j % type.fields.length = 0 ∧ j / type.fields.length * type.size ≤ D.totalSize type
  | none => D.dims.prod * type.size < 2 ^ 32 ∧ Genuine (cellFields D type) text ⟨text, false⟩

theorem put_eq_iff {t : IntegerId} {w : ℤ} : t.put o w = t.put o v ↔ w ≡ v [ZMOD 256 ^ t.size] := by
  have hpos : (0 : ℤ) < 256 ^ t.size := pow_pos (by decide) _
  have hlt : ∀ x : ℤ, (x % 256 ^ t.size).toNat < 256 ^ t.size := fun x => by
    have hx := Int.emod_lt_of_pos x hpos
    zify
    rwa [Int.toNat_of_nonneg (Int.emod_nonneg x hpos.ne')]
  constructor
  · intro h
    have hload := congrArg (load o) h
    rw [IntegerId.put, IntegerId.put, storeInt, storeInt, load_store o (hlt w), load_store o (hlt v)] at hload
    have hw := Int.emod_nonneg w hpos.ne'
    have hv := Int.emod_nonneg v hpos.ne'
    rw [Int.ModEq]
    omega
  · intro h
    rw [IntegerId.put, IntegerId.put, storeInt, storeInt, h]

/-- The result is complete exactly if the values are genuine. -/
theorem complete_extracted_iff : Complete o ks text (puts o ks (extracted ks s)) ↔ Genuine ks text s := by
  induction ks generalizing text s with
  | nil => exact iff_of_true ⟨[], trivial, .nil, rfl⟩ trivial
  | cons k ks ih =>
    constructor
    · rintro ⟨vs, hspells, hfit, hbytes⟩
      obtain ⟨v, vs, hv, hvs, rfl⟩ := List.forall₂_cons_left_iff.mp hfit
      obtain ⟨rest, hstarts, hspells⟩ := hspells
      rw [extracted, puts, puts] at hbytes
      obtain ⟨hput, hputs⟩ := List.append_inj hbytes (by simp)
      exact ⟨v, rest, hstarts, hv, put_eq_iff.mp hput, ih.mp ⟨vs, hspells, hvs, hputs⟩⟩
    · rintro ⟨v, rest, hstarts, hv, hstores, hgenuine⟩
      obtain ⟨vs, hspells, hfit, hputs⟩ := ih.mpr hgenuine
      refine ⟨v :: vs, ⟨rest, hstarts, hspells⟩, .cons hv hfit, ?_⟩
      rw [extracted, puts, puts, hputs, put_eq_iff.mpr hstores]

/-- Where the text has a value for every field that is read, decoding is safe exactly if there is room
for all cells and the values are genuine. -/
theorem decodesSafely_of_none {D : FixedDomain} {type : CellType}
    (hstop : stopsAt (cellFields D type) ⟨text, false⟩ = none) : DecodesSafely o D type text ↔
      D.dims.prod * type.size < 2 ^ 32 ∧ Genuine (cellFields D type) text ⟨text, false⟩ := by
  have heq := convertFrom_eq (o := o) D type text
  rw [hstop] at heq
  dsimp only at heq
  have hwritten := convertFromWritten_of_ok heq
  have hlength : (puts o (cellFields D type) (extracted (cellFields D type) ⟨text, false⟩)).length =
      D.numElem * type.size := by
    rw [length_puts length_extracted, cellFields, fieldsSize_replicate, type.fieldsSize_fields]
  constructor
  · intro h
    have hcomplete := h.complete _ heq
    have hroom : D.dims.prod * type.size < 2 ^ 32 := by
      -- the result has the bytes of all cells, of `numElem` cells, and no more than `totalSize`
      obtain ⟨vs, -, hfit, hbytes⟩ := hcomplete
      have hall := congrArg List.length hbytes
      rw [hlength, length_puts hfit.length_eq.symm, allFields, fieldsSize_replicate,
        type.fieldsSize_fields] at hall
      have hinside := h.inside
      rw [hwritten, hlength, FixedDomain.totalSize, hall] at hinside
      exact hinside.trans_lt (Nat.mod_lt _ (by decide))
    rw [allFields, ← D.numElem_eq hroom] at hcomplete
    exact ⟨hroom, complete_extracted_iff.mp hcomplete⟩
  · rintro ⟨hroom, hgenuine⟩
    have hnum := D.numElem_eq hroom
    refine ⟨by rw [heq]; exact nofun, ?_, fun bytes hok => ?_⟩
    · refine (length_convertFromWritten_le D type text).trans_eq ?_
      rw [FixedDomain.totalSize, hnum, Nat.mod_eq_of_lt hroom]
    · rw [heq] at hok
      rw [allFields, ← hnum, ← Except.ok.inj hok]
      exact complete_extracted_iff.mpr hgenuine

/-- **Decoding is safe** exactly where the text is decodable. -/
theorem decodesSafely_iff (o : Order) (D : FixedDomain) (type : CellType) (text : List Char) :
    DecodesSafely o D type text ↔ Decodable D type text := by
  rw [Decodable]
  cases hstop : stopsAt (cellFields D type) ⟨text, false⟩ with
  | some j =>
    have heq := convertFrom_eq (o := o) D type text
    rw [hstop] at heq
    dsimp only at heq ⊢
    split_ifs at heq with hborder
    · rw [← length_convertFromWritten (o := o) hstop hborder]
      refine ⟨fun h => ⟨hborder, h.inside⟩, fun h => ⟨?_, h.2, fun bytes hok => ?_⟩⟩
      · rw [heq]
        exact fun h => nomatch Except.error.inj h
      · rw [heq] at hok
        cases hok
    · exact iff_of_false (fun h => h.ends heq) fun h => hborder h.1
  | none => exact decodesSafely_of_none hstop

/-- A domain of one cell. -/
def oneCell : FixedDomain where
  bounds := [(0, 0)]
  bounds_ne := List.cons_ne_nil _ _
  low_le_high := List.forall_mem_singleton.mpr le_rfl

/-- A structure of two integers of which the text has one: the second is waited for without end. -/
theorem not_decodesSafely_truncated : ¬ DecodesSafely .little oneCell
    (.struct (.cons (.primitive .ulong) (.last (.primitive .ulong)))) ['{', '7', '}'] := by
  intro h
  exact h.ends (by decide)

/-! ## Types without characters -/

end Csv

end Rasdaman
