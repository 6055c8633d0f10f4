import Rasdaman.Raslib.CellLayout

/-!
# Raslib/TypeDescriptions — descriptions of types survive the client's parser

The server describes a type by a text (`getTypeStructure`), the client reads it (`getAnyType`).  The scanner
takes a keyword at the start of an element's name for the keyword itself, so that the parser finds neither a
name nor a comma and raises.  `getAnyType_same_iff` says that this is all: a description is read back exactly when
no element's name begins with a keyword.
-/

namespace Rasdaman

/-! ## Names -/

/-- A non-empty identifier of letters, digits, `-` and `_` that starts with a letter. -/
def isIdentifier : List Char → Bool
  | [] => false
  | c :: cs => c.isAlpha && cs.all isIdentifierChar

/-- The scanner finds a token other than an identifier at the start of a name. -/
def beginsWithKeyword (name : List Char) : Bool := fixedTokens.any fun p => p.1.isPrefixOf name

mutual

/-- All element names are identifiers. -/
def BaseType.NamesOk : BaseType → Prop
  | .atomic _ => True
  | .struct es => es.NamesOk

/-- All element names are identifiers. -/
def Elements.NamesOk : Elements → Prop
  | .last n t => t.NamesOk ∧ isIdentifier n = true
  | .cons n t rest => t.NamesOk ∧ isIdentifier n = true ∧ rest.NamesOk

end

mutual

/-- No element name begins with a keyword. -/
def BaseType.keywordFree : BaseType → Bool
  | .atomic _ => true
  | .struct es => es.keywordFree

/-- No element name begins with a keyword. -/
def Elements.keywordFree : Elements → Bool
  | .last n t => t.keywordFree && !beginsWithKeyword n
  | .cons n t rest => t.keywordFree && (!beginsWithKeyword n && rest.keywordFree)

end

/-- The base type of the elements of an array type. -/
def MDDBaseType.baseType : MDDBaseType → BaseType
  | .base t => t
  | .dimension t _ => t
  | .domain t _ => t

/-- The base type in a type. -/
def ServerType.baseType : ServerType → BaseType
  | .base t => t
  | .mdd m => m.baseType
  | .set m => m.baseType

/-- The client's type for a server type: the same constructors, names, order and primitive types. -/
def ServerType.client : ServerType → RType
  | .base t => .base (t.client 0)
  | .mdd m => .marray (m.baseType.client 0)
  | .set m => .collection (.marray (m.baseType.client 0))

mutual

/-- A client's type has the constructors and the primitive types of a base type, and its element names in
order. -/
def BaseType.Same : BaseType → RBaseType → Prop
  | .atomic a, .primitive typeId => typeId = a.primitiveId
  | .struct es, .structure attributes _ => es.Same attributes
  | _, _ => False

/-- The same for the elements of a struct. -/
def Elements.Same : Elements → RAttributes → Prop
  | .last n t, .last name type _ _ => name = n ∧ t.Same type
  | .cons n t es, .cons name type _ _ rest => name = n ∧ t.Same type ∧ es.Same rest
  | _, _ => False

end

/-- The same for all types. -/
def ServerType.Same : ServerType → RType → Prop
  | .base t, .base type => t.Same type
  | .mdd m, .marray type => m.baseType.Same type
  | .set m, .collection (.marray type) => m.baseType.Same type
  | _, _ => False

theorem BaseType.same_atomic (a : AtomicType) (typeId : PrimitiveId) :
    (BaseType.atomic a).Same (.primitive typeId) = (typeId = a.primitiveId) := rfl

theorem BaseType.same_struct (es : Elements) (attributes : RAttributes) (localOffset : ℕ) :
    (BaseType.struct es).Same (.structure attributes localOffset) = es.Same attributes := rfl

theorem Elements.same_last (n name : List Char) (t : BaseType) (type : RBaseType) (offset globalOffset : ℕ) :
    (Elements.last n t).Same (.last name type offset globalOffset) = (name = n ∧ t.Same type) := rfl

theorem Elements.same_cons (n name : List Char) (t : BaseType) (es : Elements) (type : RBaseType)
    (offset globalOffset : ℕ) (rest : RAttributes) :
    (Elements.cons n t es).Same (.cons name type offset globalOffset rest) =
      (name = n ∧ t.Same type ∧ es.Same rest) := rfl

/-- Placing attributes changes nothing but their offsets. -/
theorem Elements.Same.place : ∀ {es : Elements} {attributes : RAttributes}, es.Same attributes →
    ∀ offset typeSize : ℕ, es.Same (attributes.place offset typeSize).1
  | .last _ _, .last _ _ _ _, h, _, _ => by
    rw [Elements.same_last] at h
    rw [RAttributes.place, Elements.same_last]
    exact h
  | .cons _ _ _, .cons _ type _ _ _, h, offset, typeSize => by
    rw [Elements.same_cons] at h
    rw [RAttributes.place, Elements.same_cons]
    exact ⟨h.1, h.2.1, Elements.Same.place h.2.2 offset (typeSize + type.size)⟩
  | .last _ _, .cons _ _ _ _ _, h, _, _ => False.elim h
  | .cons _ _ _, .last _ _ _ _, h, _, _ => False.elim h

mutual

theorem BaseType.same_client : ∀ (t : BaseType) (localOffset : ℕ), t.Same (t.client localOffset)
  | .atomic _, _ => by rw [BaseType.client, BaseType.same_atomic]
  | .struct es, localOffset => by
    rw [BaseType.client, structureType, BaseType.same_struct]
    exact (es.same_client localOffset).place localOffset 0

theorem Elements.same_client : ∀ (es : Elements) (localOffset : ℕ), es.Same (es.client localOffset)
  | .last _ t, localOffset => by
    rw [Elements.client, Elements.same_last]
    exact ⟨rfl, t.same_client localOffset⟩
  | .cons _ t rest, localOffset => by
    rw [Elements.client, Elements.same_cons]
    exact ⟨rfl, t.same_client localOffset, rest.same_client _⟩

end

theorem ServerType.same_client (t : ServerType) : t.Same t.client := by
  cases t with
  | base t => exact t.same_client 0
  | mdd m => exact m.baseType.same_client 0
  | set m => exact m.baseType.same_client 0

/-! ## The scanner on descriptions -/

/-- Skip blanks. -/
abbrev skip (text : List Char) : List Char := text.dropWhile (· == ' ')

theorem isIdentifierChar_of_isAlpha {c : Char} (h : c.isAlpha = true) : isIdentifierChar c = true := by
  rw [isIdentifierChar, Char.isAlphanum, h]
  rfl

theorem takeWhile_identifier {name : List Char} (h : ∀ c ∈ name, isIdentifierChar c = true) {c : Char}
    (hc : isIdentifierChar c = false) (rest : List Char) :
    (name ++ c :: rest).takeWhile isIdentifierChar = name ∧
      (name ++ c :: rest).dropWhile isIdentifierChar = c :: rest := by
  induction name with
  | nil => simp [hc]
  | cons x name ih =>
    obtain ⟨hx, hname⟩ := List.forall_mem_cons.mp h
    simpa [hx] using ih hname

theorem mem_identifier {name : List Char} (h : isIdentifier name = true) :
    ∀ c ∈ name, isIdentifierChar c = true := by
  cases name with
  | nil => exact fun c hc => absurd hc List.not_mem_nil
  | cons x name =>
    rw [isIdentifier, Bool.and_eq_true, List.all_eq_true] at h
    exact List.forall_mem_cons.mpr ⟨isIdentifierChar_of_isAlpha h.1, h.2⟩

/-- No fixed token has a blank or a comma after its first character. -/
theorem tail_fixedTokens : ∀ p ∈ fixedTokens, ∀ c ∈ p.1.tail, c ≠ ' ' ∧ c ≠ ',' := by
  have hall : (fixedTokens.all fun p => p.1.tail.all fun c => c != ' ' && c != ',') = true := by
    decide
  intro p hp c hc
  have hc' := List.all_eq_true.mp (List.all_eq_true.mp hall p hp) c hc
  rwa [Bool.and_eq_true, bne_iff_ne, bne_iff_ne] at hc'

theorem isPrefixOf_append {l : List Char} {c : Char} (hl : c ∉ l) (name rest : List Char) :
    l.isPrefixOf (name ++ c :: rest) = l.isPrefixOf name := by
  induction name generalizing l with
  | nil =>
    cases l with
    | nil => rfl
    | cons y l =>
      have hne : (y == c) = false := by
        rw [beq_eq_false_iff_ne]
        rintro rfl
        exact hl List.mem_cons_self
      simp [List.isPrefixOf, hne]
  | cons x name ih =>
    cases l with
    | nil => rfl
    | cons y l =>
      rw [List.cons_append, List.isPrefixOf, List.isPrefixOf,
        ih fun h => hl (List.mem_cons_of_mem _ h)]

/-- What follows a name does not make a token of it. -/
theorem find_fixedTokens {name : List Char} (hname : name ≠ []) {c : Char} (hc : c = ' ' ∨ c = ',')
    (rest : List Char) :
    (fixedTokens.find? fun p => p.1.isPrefixOf (name ++ c :: rest)) =
      fixedTokens.find? fun p => p.1.isPrefixOf name := by
  obtain ⟨x, name, rfl⟩ := List.exists_cons_of_ne_nil hname
  rw [← List.head?_filter, ← List.head?_filter]
  refine congrArg List.head? (List.filter_congr fun p hp => ?_)
  have htail := tail_fixedTokens p hp
  obtain ⟨l, token⟩ := p
  cases l with
  | nil => rfl
  | cons y l =>
    have hcl : c ∉ l := fun h => by
      obtain ⟨hblank, hcomma⟩ := htail c h
      exact hc.elim hblank hcomma
    rw [List.cons_append, List.isPrefixOf, List.isPrefixOf, isPrefixOf_append hcl]

theorem skip_name {name : List Char} (h : isIdentifier name = true) (rest : List Char) :
    skip (name ++ rest) = name ++ rest := by
  cases name with
  | nil => exact absurd h Bool.false_ne_true
  | cons x name =>
    rw [isIdentifier, Bool.and_eq_true] at h
    have hblank : (x == ' ') = false := by
      rw [beq_eq_false_iff_ne]
      rintro rfl
      exact absurd h.1 (by decide)
    rw [List.cons_append, skip, List.dropWhile_cons_of_neg (by simp [hblank])]

/-- A name without a keyword at its start is an identifier. -/
theorem getNextToken_name {name : List Char} (h : isIdentifier name = true)
    (hkey : beginsWithKeyword name = false) {c : Char} (hc : c = ' ' ∨ c = ',') (rest : List Char) :
    getNextToken (name ++ c :: rest) = (.identifier name, skip (c :: rest)) := by
  have hne : name ≠ [] := by
    rintro rfl
    exact Bool.false_ne_true h
  have hfind : (fixedTokens.find? fun p => p.1.isPrefixOf name) = none := by
    rw [List.find?_eq_none]
    rw [beginsWithKeyword, List.any_eq_false] at hkey
    exact hkey
  have hstop : isIdentifierChar c = false := by rcases hc with rfl | rfl <;> decide
  obtain ⟨htake, hdrop⟩ := takeWhile_identifier (mem_identifier h) hstop rest
  have hskip := skip_name h (c :: rest)
  rw [skip] at hskip
  rw [getNextToken, hskip]
  simp only [find_fixedTokens hne hc, hfind, htake, hdrop]

theorem fixedTokens_not_identifier : ∀ p ∈ fixedTokens, ∀ text, p.2 ≠ .identifier text := by
  simp [fixedTokens]

theorem fixedTokens_punctuation : ∀ p ∈ fixedTokens, p.2 = .rcp ∨ p.2 = .comma →
    p.1 = ['}'] ∨ p.1 = [','] := by decide

/-- A name with a keyword at its start is neither an identifier nor one of the tokens that may stand after
an attribute. -/
theorem getNextToken_keyword {name : List Char} (h : isIdentifier name = true)
    (hkey : beginsWithKeyword name = true) {c : Char} (hc : c = ' ' ∨ c = ',') (rest : List Char) :
    (∀ text, (getNextToken (name ++ c :: rest)).1 ≠ .identifier text) ∧
      (getNextToken (name ++ c :: rest)).1 ≠ .rcp ∧ (getNextToken (name ++ c :: rest)).1 ≠ .comma := by
  have hne : name ≠ [] := by
    rintro rfl
    exact Bool.false_ne_true h
  obtain ⟨p, hfind⟩ : ∃ p, (fixedTokens.find? fun p => p.1.isPrefixOf name) = some p := by
    rw [← Option.isSome_iff_exists, List.find?_isSome]
    exact List.any_eq_true.mp hkey
  have hmem := List.mem_of_find?_eq_some hfind
  have hprefix : p.1.isPrefixOf name = true := by simpa using List.find?_some hfind
  have htoken : (getNextToken (name ++ c :: rest)).1 = p.2 := by
    have hskip := skip_name h (c :: rest)
    rw [skip] at hskip
    rw [getNextToken, hskip]
    simp only [find_fixedTokens hne hc, hfind]
  have hpunct : ¬ (p.2 = .rcp ∨ p.2 = .comma) := by
    intro htok
    obtain ⟨x, name, rfl⟩ := List.exists_cons_of_ne_nil hne
    rw [isIdentifier, Bool.and_eq_true] at h
    rcases fixedTokens_punctuation p hmem htok with htext | htext <;> rw [htext] at hprefix
    · obtain rfl : '}' = x := by simpa [List.isPrefixOf] using hprefix
      exact absurd h.1 (by decide)
    · obtain rfl : ',' = x := by simpa [List.isPrefixOf] using hprefix
      exact absurd h.1 (by decide)
  rw [htoken]
  exact ⟨fixedTokens_not_identifier p hmem, fun h => hpunct (.inl h), fun h => hpunct (.inr h)⟩

/-- The name of an atomic type is its token, where it does not go on. -/
theorem getPrimitiveType_atomic (a : AtomicType) {rest : List Char} (h : rest.head? ≠ some 'd') :
    getPrimitiveType (a.getTypeName.toList.map Char.toLower ++ rest) =
      .ok (.primitive a.primitiveId, skip rest) := by
  cases a
  case complex1 =>
    cases rest with
    | nil => rfl
    | cons c rest =>
      -- the scanner tries `complexd` first
      have hc : ('d' == c) = false := by
        rw [beq_eq_false_iff_ne]
        rintro rfl
        exact h rfl
      have hprefix : "complexd".toList.isPrefixOf ("complex".toList ++ c :: rest) = false := by
        change ('d' == c && _) = false
        rw [hc, Bool.false_and]
      have hfind : (fixedTokens.find? fun p => p.1.isPrefixOf ("complex".toList ++ c :: rest)) =
          some ("complex".toList, .complexType1) := by
        simp only [fixedTokens, List.find?, hprefix]
        rfl
      have htoken : getNextToken ("complex".toList ++ c :: rest) = (.complexType1, skip (c :: rest)) := by
        rw [getNextToken]
        have hskip : ("complex".toList ++ c :: rest).dropWhile (· == ' ') =
          "complex".toList ++ c :: rest := rfl
        rw [hskip, hfind]
        rfl
      have htext : AtomicType.complex1.getTypeName.toList.map Char.toLower = "complex".toList := rfl
      rw [htext, getPrimitiveType, htoken]
      rfl
  all_goals rfl

/-! ## The parser on descriptions -/

mutual

/-- The calls of the parser that are open at one time. -/
def BaseType.need : BaseType → ℕ
  | .atomic _ => 1
  | .struct es => es.need + 2

/-- The same for attributes. -/
def Elements.need : Elements → ℕ
  | .last _ t => t.need + 1
  | .cons _ t rest => max t.need rest.need + 1

end

mutual

theorem BaseType.need_le_length : ∀ t : BaseType, t.need ≤ t.getTypeStructure.length
  | .atomic a => by
    rw [BaseType.need, BaseType.getTypeStructure]
    cases a <;> simp [AtomicType.getTypeName]
  | .struct es => by
    have hes := es.need_le_length
    simp only [BaseType.need, BaseType.getTypeStructure, List.length_cons]
    omega

theorem Elements.need_le_length : ∀ es : Elements, es.need ≤ es.getTypeStructure.length
  | .last n t => by
    have ht := t.need_le_length
    simp only [Elements.need, Elements.getTypeStructure, List.length_append, List.length_cons]
    omega
  | .cons n t rest => by
    have ht := t.need_le_length
    have hrest := rest.need_le_length
    simp only [Elements.need, Elements.getTypeStructure, List.length_append, List.length_cons]
    omega

end

theorem BaseType.skip_text (t : BaseType) (rest : List Char) :
    skip (t.getTypeStructure ++ rest) = t.getTypeStructure ++ rest := by
  cases t with
  | atomic a =>
    rw [getTypeStructure]
    cases a <;> rfl
  | struct es =>
    rw [getTypeStructure]
    rfl

theorem Elements.skip_text (es : Elements) (rest : List Char) :
    skip (es.getTypeStructure ++ rest) = es.getTypeStructure ++ rest := by
  cases es <;>
  · rw [getTypeStructure, List.append_assoc]
    exact BaseType.skip_text _ _

/-- A primitive type is no structure. -/
theorem getBaseType_of_primitive {pos : List Char} {r : RBaseType × List Char}
    (h : getPrimitiveType pos = .ok r) (fuel offset : ℕ) :
    getBaseType (fuel + 1) pos offset = .ok r := by
  rw [getBaseType]
  split
  · next hstruct =>
    rw [getPrimitiveType, hstruct] at h
    exact nomatch h
  · exact h

/-- The start of a structure. -/
theorem getStructureType_text (es : Elements) (rest : List Char) (fuel offset : ℕ) :
    getStructureType (fuel + 1) ((BaseType.struct es).getTypeStructure ++ rest) offset =
      (getAttributes fuel (es.getTypeStructure ++ rest) offset >>= fun r =>
        .ok (structureType r.1 offset, r.2)) := by
  have hstruct : getNextToken ((BaseType.struct es).getTypeStructure ++ rest) =
      (.struct, '{' :: ' ' :: (es.getTypeStructure ++ rest)) := by
    rw [BaseType.getTypeStructure]
    rfl
  have hbrace : getNextToken ('{' :: ' ' :: (es.getTypeStructure ++ rest)) =
      (.lcp, skip (es.getTypeStructure ++ rest)) := rfl
  rw [getStructureType, hstruct]
  simp only [hbrace, es.skip_text]
  rfl

/-- The last element of a struct: its name, and the closing brace. -/
theorem getAttributes_last {fuel : ℕ} {pos name rest : List Char} {localOffset : ℕ} {type : RBaseType}
    (h : getBaseType fuel pos localOffset = .ok (type, name ++ ' ' :: '}' :: rest))
    (hname : isIdentifier name = true) :
    getAttributes (fuel + 1) pos localOffset =
      if beginsWithKeyword name then .error parseError else .ok (.last name type 0 0, skip rest) := by
  rw [getAttributes, h]
  cases hkey : beginsWithKeyword name with
  | false =>
    have htoken := getNextToken_name hname hkey (.inl rfl) ('}' :: rest)
    have hbrace : getNextToken (skip (' ' :: '}' :: rest)) = (.rcp, skip rest) := rfl
    rw [skip] at htoken hbrace
    simp only [bind, Except.bind, htoken, hbrace]
    rfl
  | true =>
    obtain ⟨hident, hrcp, hcomma⟩ := getNextToken_keyword hname hkey (.inl rfl) ('}' :: rest)
    simp only [bind, Except.bind]
    generalize getNextToken (name ++ ' ' :: '}' :: rest) = r at hident hrcp hcomma ⊢
    obtain ⟨token, pos'⟩ := r
    cases token with
    | identifier text => exact absurd rfl (hident text)
    | rcp => exact absurd rfl hrcp
    | comma => exact absurd rfl hcomma
    | _ => rfl

/-- Any other element: its name, and the comma. -/
theorem getAttributes_cons {fuel : ℕ} {pos name rest : List Char} {localOffset : ℕ} {type : RBaseType}
    (h : getBaseType fuel pos localOffset = .ok (type, name ++ ',' :: rest))
    (hname : isIdentifier name = true) :
    getAttributes (fuel + 1) pos localOffset =
      if beginsWithKeyword name then .error parseError
      else getAttributes fuel (skip rest) (localOffset + type.size) >>= fun r =>
        .ok (.cons name type 0 0 r.1, r.2) := by
  rw [getAttributes, h]
  cases hkey : beginsWithKeyword name with
  | false =>
    have htoken := getNextToken_name hname hkey (.inr rfl) rest
    have hcomma : getNextToken (skip (',' :: rest)) = (.comma, skip rest) := rfl
    rw [skip] at htoken hcomma
    simp only [bind, Except.bind, htoken, hcomma]
    rfl
  | true =>
    obtain ⟨hident, hrcp, hcomma⟩ := getNextToken_keyword hname hkey (.inr rfl) rest
    simp only [bind, Except.bind]
    generalize getNextToken (name ++ ',' :: rest) = r at hident hrcp hcomma ⊢
    obtain ⟨token, pos'⟩ := r
    cases token with
    | identifier text => exact absurd rfl (hident text)
    | rcp => exact absurd rfl hrcp
    | comma => exact absurd rfl hcomma
    | _ => rfl

/-- What cannot be read as a base type is no element. -/
theorem getAttributes_error {fuel : ℕ} {pos : List Char} {localOffset : ℕ} {e : Halt}
    (h : getBaseType fuel pos localOffset = .error e) :
    getAttributes (fuel + 1) pos localOffset = .error e := by
  rw [getAttributes, h]
  rfl

mutual

/-- **Reading a base type back.** -/
theorem BaseType.parse : ∀ (t : BaseType), t.NamesOk → ∀ (fuel : ℕ), t.need ≤ fuel →
    ∀ (rest : List Char), rest.head? ≠ some 'd' → ∀ offset : ℕ,
      getBaseType fuel (t.getTypeStructure ++ rest) offset =
        if t.keywordFree then .ok (t.client offset, skip rest) else .error parseError
  | .atomic a, _, fuel, hfuel, rest, hrest, offset => by
    rw [BaseType.need] at hfuel
    obtain ⟨fuel, rfl⟩ := Nat.exists_eq_succ_of_ne_zero (Nat.pos_of_ne_zero (by omega : fuel ≠ 0)).ne'
    rw [BaseType.getTypeStructure, BaseType.keywordFree, if_pos rfl, BaseType.client]
    exact getBaseType_of_primitive (getPrimitiveType_atomic a hrest) fuel offset
  | .struct es, hnames, fuel, hfuel, rest, _, offset => by
    rw [BaseType.need] at hfuel
    rw [BaseType.NamesOk] at hnames
    obtain ⟨fuel, rfl⟩ : ∃ f, fuel = f + 2 := ⟨fuel - 2, by omega⟩
    have htoken : (getNextToken ((BaseType.struct es).getTypeStructure ++ rest)).1 = .struct := by
      rw [BaseType.getTypeStructure]
      rfl
    have hbase : getBaseType (fuel + 2) ((BaseType.struct es).getTypeStructure ++ rest) offset =
        getStructureType (fuel + 1) ((BaseType.struct es).getTypeStructure ++ rest) offset := by
      rw [getBaseType]
      split
      · rfl
      · next hno => exact absurd (Prod.ext htoken rfl) (hno _)
    rw [hbase, getStructureType_text, es.parse hnames _ (by omega) rest offset, BaseType.keywordFree,
      BaseType.client]
    cases es.keywordFree <;> rfl

theorem Elements.parse : ∀ (es : Elements), es.NamesOk → ∀ (fuel : ℕ), es.need ≤ fuel →
    ∀ (rest : List Char) (localOffset : ℕ),
      getAttributes fuel (es.getTypeStructure ++ rest) localOffset =
        if es.keywordFree then .ok (es.client localOffset, skip rest) else .error parseError
  | .last n t, hnames, fuel, hfuel, rest, localOffset => by
    rw [Elements.NamesOk] at hnames
    rw [Elements.need] at hfuel
    obtain ⟨fuel, rfl⟩ : ∃ f, fuel = f + 1 := ⟨fuel - 1, by omega⟩
    have htype := t.parse hnames.1 fuel (by omega) (' ' :: (n ++ ' ' :: '}' :: rest)) (by simp)
      localOffset
    rw [Elements.getTypeStructure, Elements.keywordFree, Elements.client, List.append_assoc]
    have hpos : (' ' :: (n ++ [' ', '}'])) ++ rest = ' ' :: (n ++ ' ' :: '}' :: rest) := by simp
    rw [hpos]
    cases hfree : t.keywordFree with
    | false =>
      rw [hfree] at htype
      rw [getAttributes_error htype]
      rfl
    | true =>
      have hskip : skip (' ' :: (n ++ ' ' :: '}' :: rest)) = n ++ ' ' :: '}' :: rest :=
        skip_name hnames.2 _
      rw [hfree, if_pos rfl, hskip] at htype
      rw [getAttributes_last htype hnames.2]
      cases beginsWithKeyword n <;> rfl
  | .cons n t next, hnames, fuel, hfuel, rest, localOffset => by
    rw [Elements.NamesOk] at hnames
    obtain ⟨hnamesT, hname, hnamesNext⟩ := hnames
    rw [Elements.need] at hfuel
    obtain ⟨fuel, rfl⟩ : ∃ f, fuel = f + 1 := ⟨fuel - 1, by omega⟩
    have htype := t.parse hnamesT fuel (by omega)
      (' ' :: (n ++ ',' :: ' ' :: (next.getTypeStructure ++ rest))) (by simp) localOffset
    have hnext := next.parse hnamesNext fuel (by omega) rest
      (localOffset + (t.client localOffset).size)
    rw [Elements.getTypeStructure, Elements.keywordFree, Elements.client, List.append_assoc]
    have hpos : (' ' :: (n ++ ',' :: ' ' :: next.getTypeStructure)) ++ rest =
        ' ' :: (n ++ ',' :: ' ' :: (next.getTypeStructure ++ rest)) := by simp
    rw [hpos]
    cases hfree : t.keywordFree with
    | false =>
      rw [hfree] at htype
      rw [getAttributes_error htype]
      rfl
    | true =>
      have hskip : skip (' ' :: (n ++ ',' :: ' ' :: (next.getTypeStructure ++ rest))) =
          n ++ ',' :: ' ' :: (next.getTypeStructure ++ rest) := skip_name hname _
      have hblank : skip (' ' :: (next.getTypeStructure ++ rest)) = next.getTypeStructure ++ rest :=
        next.skip_text rest
      rw [hfree, if_pos rfl, hskip] at htype
      rw [getAttributes_cons htype hname, hblank, hnext]
      cases beginsWithKeyword n <;> cases next.keywordFree <;> rfl

end

/-! ## Whole descriptions -/

/-- The text of an array type, up to its base type. -/
theorem MDDBaseType.text_append (m : MDDBaseType) (rest : List Char) : ∃ tail : List Char,
    tail.head? ≠ some 'd' ∧
      m.getTypeStructure ++ rest = marrayText ++ (m.baseType.getTypeStructure ++ tail) := by
  cases m with
  | base t => exact ⟨'>' :: rest, by simp, by simp [getTypeStructure, baseType]⟩
  | dimension t dimBuf =>
    exact ⟨',' :: ' ' :: (dimBuf ++ '>' :: rest), by simp, by simp [getTypeStructure, baseType]⟩
  | domain t mdom =>
    exact ⟨',' :: ' ' :: (mdom ++ '>' :: rest), by simp, by simp [getTypeStructure, baseType]⟩

theorem MDDBaseType.need_le_length (m : MDDBaseType) : m.baseType.need ≤ m.getTypeStructure.length := by
  obtain ⟨tail, -, htext⟩ := m.text_append []
  have hneed := m.baseType.need_le_length
  rw [List.append_nil] at htext
  rw [htext, List.length_append, List.length_append]
  omega

/-- Reading an array type back. -/
theorem MDDBaseType.parse (m : MDDBaseType) (h : m.baseType.NamesOk) (fuel : ℕ)
    (hfuel : m.baseType.need ≤ fuel) (rest : List Char) : ∃ rest' : List Char,
    getMarrayType fuel (m.getTypeStructure ++ rest) =
      if m.baseType.keywordFree then .ok (.marray (m.baseType.client 0), rest')
      else .error parseError := by
  obtain ⟨tail, htail, htext⟩ := m.text_append rest
  refine ⟨skip tail, ?_⟩
  have hmarray : getNextToken (marrayText ++ (m.baseType.getTypeStructure ++ tail)) =
      (.marray, '<' :: (m.baseType.getTypeStructure ++ tail)) := rfl
  have hlap : getNextToken ('<' :: (m.baseType.getTypeStructure ++ tail)) =
      (.lap, skip (m.baseType.getTypeStructure ++ tail)) := rfl
  rw [BaseType.skip_text] at hlap
  have hbase := m.baseType.parse h _ hfuel _ htail 0
  rw [htext, getMarrayType]
  simp only [hmarray, hlap]
  cases hfree : m.baseType.keywordFree <;> rw [hfree] at hbase
  · simp [hbase, bind, Except.bind]
  · simp [hbase, bind, Except.bind, pure, Except.pure]

/-- Reading a base type back that stands alone. -/
theorem BaseType.parse_alone (t : BaseType) (h : t.NamesOk) {fuel : ℕ} (hfuel : t.need ≤ fuel) :
    Prod.fst <$> getType fuel t.getTypeStructure =
      if t.keywordFree then .ok (.base (t.client 0)) else .error parseError := by
  cases t with
  | atomic a =>
    rw [getTypeStructure, keywordFree, client]
    cases a <;> rfl
  | struct es =>
    rw [need] at hfuel
    rw [NamesOk] at h
    obtain ⟨fuel, rfl⟩ : ∃ f, fuel = f + 1 := ⟨fuel - 1, by omega⟩
    have hstruct : getNextToken (BaseType.struct es).getTypeStructure =
        (.struct, '{' :: ' ' :: es.getTypeStructure) := by
      rw [getTypeStructure]
      rfl
    have htype := getStructureType_text es [] fuel 0
    rw [es.parse h _ (by omega) [] 0, List.append_nil] at htype
    rw [getType, hstruct, keywordFree, client]
    simp only [htype]
    cases es.keywordFree <;> rfl

/-- The first token of an array type. -/
theorem MDDBaseType.first_token (m : MDDBaseType) (rest : List Char) :
    ∃ pos, getNextToken (m.getTypeStructure ++ rest) = (.marray, pos) := by
  obtain ⟨tail, -, htext⟩ := m.text_append rest
  exact ⟨'<' :: (m.baseType.getTypeStructure ++ tail), by rw [htext]; rfl⟩

/-- The first token of a base type. -/
theorem BaseType.first_token (t : BaseType) :
    (getNextToken t.getTypeStructure).1 ≠ .marray ∧ (getNextToken t.getTypeStructure).1 ≠ .set := by
  cases t with
  | atomic a =>
    rw [getTypeStructure]
    cases a <;> exact ⟨nofun, nofun⟩
  | struct es =>
    rw [getTypeStructure]
    exact ⟨nofun, nofun⟩

/-- **Reading a description back**: it is what it should be, or the parser raises. -/
theorem ServerType.parse (t : ServerType) (h : t.baseType.NamesOk) :
    getAnyType t.getTypeStructure =
      if t.baseType.keywordFree then .ok t.client else .error parseError := by
  cases t with
  | base t =>
    have hparse := t.parse_alone h t.need_le_length
    rw [getTypeStructure, baseType, client, ← hparse, getAnyType]
    obtain ⟨hmarray, hset⟩ := t.first_token
    split
    · next htoken => exact absurd (by rw [htoken]) hmarray
    · next htoken => exact absurd (by rw [htoken]) hset
    · rfl
  | mdd m =>
    obtain ⟨rest, hparse⟩ := m.parse h _ m.need_le_length []
    obtain ⟨pos, htoken⟩ := m.first_token []
    rw [List.append_nil] at hparse htoken
    rw [getTypeStructure, baseType, client, getAnyType, htoken]
    simp only [hparse]
    cases m.baseType.keywordFree <;> rfl
  | set m =>
    have hneed := m.need_le_length
    obtain ⟨rest, hparse⟩ := m.parse h (ServerType.set m).getTypeStructure.length
      (by rw [getTypeStructure]; simp only [List.length_cons, List.length_append]; omega) ['>']
    obtain ⟨pos, htoken⟩ := m.first_token ['>']
    have hset : getNextToken (ServerType.set m).getTypeStructure =
        (.set, '<' :: (m.getTypeStructure ++ ['>'])) := by
      rw [getTypeStructure]
      rfl
    have hlap : getNextToken ('<' :: (m.getTypeStructure ++ ['>'])) =
        (.lap, m.getTypeStructure ++ ['>']) := by
      cases m <;> rfl
    rw [getAnyType, hset]
    simp only [getCollectionType, hset, hlap, htoken, hparse]
    rw [baseType, client]
    cases m.baseType.keywordFree <;> rfl

/-- **Descriptions of types survive the client's parser exactly when no element name, at any nesting, begins
with a keyword.** -/
theorem getAnyType_same_iff (t : ServerType) (h : t.baseType.NamesOk) :
    (∃ type, getAnyType t.getTypeStructure = .ok type ∧ t.Same type) ↔
      t.baseType.keywordFree = true := by
  rw [t.parse h]
  constructor
  · rintro ⟨type, hok, -⟩
    by_contra hkey
    rw [if_neg hkey] at hok
    exact nomatch hok
  · intro hfree
    rw [if_pos hfree]
    exact ⟨t.client, rfl, t.same_client⟩

/-- A pixel of two colours. -/
def twoColours : ServerType :=
  .set (.dimension (.struct (.cons ['r', 'e', 'd'] (.atomic .char) (.last ['g'] (.atomic .long)))) ['2'])

theorem getAnyType_same_twoColours :
    ∃ type, getAnyType twoColours.getTypeStructure = .ok type ∧ twoColours.Same type :=
  (getAnyType_same_iff twoColours ⟨trivial, by decide, trivial, by decide⟩).mpr (by decide)

/-- An element named `long_name`. -/
def longElement : ServerType :=
  .base (.struct (.last ['l', 'o', 'n', 'g', '_', 'n', 'a', 'm', 'e'] (.atomic .char)))

/-- The scanner reads the start of `long_name` as the keyword `long`, and the parser raises. -/
theorem longName_raises : longElement.baseType.NamesOk ∧
    getAnyType longElement.getTypeStructure = .error parseError ∧
      ¬ ∃ type, getAnyType longElement.getTypeStructure = .ok type ∧ longElement.Same type := by
  have hnames : longElement.baseType.NamesOk := ⟨trivial, by decide⟩
  have hparse : getAnyType longElement.getTypeStructure = .error parseError := by
    rw [longElement.parse hnames]
    rfl
  refine ⟨hnames, hparse, ?_⟩
  rintro ⟨type, hok, -⟩
  rw [hparse] at hok
  exact nomatch hok

end Rasdaman
